import AgentVerse.Effects.Prog

/-!
# Two runs of a program

The runs of two programs in two environments, side by side. A `Twin` fixes the environments and the condition under
which each of the runs takes its steps (`Prog.Along`). The triple `T.Alike P p p' N` says that runs of `p` and `p'`
from states related by `P` whose steps all meet the conditions have the same result, in states related by `N`.

* `Alike.bind`: the sequence rule.
* `Alike.of_only`: a program whose questions get the same answers on both sides.
-/

namespace Effects

variable {Q : Type} {R : Q → Type} {ε ε' α β S S' : Type}

namespace Prog

/-! ### Runs without their trace -/

/-- The result of a run, and the state it leaves. -/
def exec (h : Handler R S) : Prog Q R ε α → S → Except ε α × S
  | ret a, s => (.ok a, s)
  | fail e, s => (.error e, s)
  | ask q k, s => (k (h q s).1).exec h (h q s).2

/-- Every question of a run is asked in a state that satisfies `C`. -/
def Along (h : Handler R S) (C : S → Q → Prop) : Prog Q R ε α → S → Prop
  | ret _, _ => True
  | fail _, _ => True
  | ask q k, s => C s q ∧ (k (h q s).1).Along h C (h q s).2

/-- Whether the steps of a run satisfy `C` is decided along the run. -/
instance decAlong (h : Handler R S) (C : S → Q → Prop) [∀ s q, Decidable (C s q)] :
    (p : Prog Q R ε α) → (s : S) → Decidable (p.Along h C s)
  | ret _, _ => inferInstanceAs (Decidable True)
  | fail _, _ => inferInstanceAs (Decidable True)
  | ask q k, s => @instDecidableAnd _ _ inferInstance (decAlong h C (k (h q s).1) (h q s).2)

variable {h : Handler R S} {C : S → Q → Prop}

theorem exec_bind (p : Prog Q R ε α) (f : α → Prog Q R ε β) (s : S) :
    (p >>= f).exec h s =
      match (p.exec h s).1 with
      | .ok a => (f a).exec h (p.exec h s).2
      | .error e => (.error e, (p.exec h s).2) := by
  induction p generalizing s with
  | ret a => rfl
  | fail e => rfl
  | ask q k ih => exact ih _ _

theorem exec_mapErr (f : ε → ε') (p : Prog Q R ε α) (s : S) :
    (p.mapErr f).exec h s = ((p.exec h s).1.mapError f, (p.exec h s).2) := by
  induction p generalizing s with
  | ret a => rfl
  | fail e => rfl
  | ask q k ih => exact ih _ _

theorem along_bind {p : Prog Q R ε α} {f : α → Prog Q R ε β} {s : S} :
    (p >>= f).Along h C s ↔ p.Along h C s ∧
      ∀ a, (p.exec h s).1 = .ok a → (f a).Along h C (p.exec h s).2 := by
  induction p generalizing s with
  | ret a => exact ⟨fun hf => ⟨trivial, fun _ ha => Except.ok.inj ha ▸ hf⟩, fun hf => hf.2 a rfl⟩
  | fail e => exact ⟨fun _ => ⟨trivial, fun _ ha => by cases ha⟩, fun _ => trivial⟩
  | ask q k ih =>
    constructor
    · rintro ⟨hq, hk⟩
      exact ⟨⟨hq, ((ih _).mp hk).1⟩, ((ih _).mp hk).2⟩
    · rintro ⟨⟨hq, hk⟩, hf⟩
      exact ⟨hq, (ih _).mpr ⟨hk, hf⟩⟩

theorem along_mapErr {f : ε → ε'} {p : Prog Q R ε α} {s : S} : (p.mapErr f).Along h C s ↔ p.Along h C s := by
  induction p generalizing s with
  | ret a => exact Iff.rfl
  | fail e => exact Iff.rfl
  | ask q k ih => exact and_congr_right fun _ => ih _

end Prog

/-! ### Triples -/

/-- Two environments, and the condition on the steps in each of them. -/
structure Twin (R : Q → Type) (S S' : Type) where
  left : Handler R S
  right : Handler R S'
  allowedLeft : S → Q → Prop
  allowedRight : S' → Q → Prop

namespace Twin

variable (T : Twin R S S')

/-- Allowed runs from related states have the same result and leave related states. -/
def Alike (P : S → S' → Prop) (p p' : Prog Q R ε α) (N : Except ε α → S → S' → Prop) : Prop :=
  ∀ s s', P s s' → p.Along T.left T.allowedLeft s → p'.Along T.right T.allowedRight s' →
    (p'.exec T.right s').1 = (p.exec T.left s).1 ∧
      N (p.exec T.left s).1 (p.exec T.left s).2 (p'.exec T.right s').2

variable {T} {P P' : S → S' → Prop}

theorem Alike.ret {a : α} {N : Except ε α → S → S' → Prop} (h : ∀ s s', P s s' → N (.ok a) s s') :
    T.Alike P (.ret a) (.ret a) N :=
  fun s s' hs _ _ => ⟨rfl, h s s' hs⟩

theorem Alike.fail {e : ε} {N : Except ε α → S → S' → Prop} (h : ∀ s s', P s s' → N (.error e) s s') :
    T.Alike P (.fail e) (.fail e) N :=
  fun s s' hs _ _ => ⟨rfl, h s s' hs⟩

/-- A question that gets the same answer on both sides. -/
theorem Alike.ask {q : Q} {k k' : R q → Prog Q R ε α} {M : R q → S → S' → Prop} {N : Except ε α → S → S' → Prop}
    (hq : ∀ s s', P s s' → T.allowedLeft s q → T.allowedRight s' q →
      (T.right q s').1 = (T.left q s).1 ∧ M (T.left q s).1 (T.left q s).2 (T.right q s').2)
    (hk : ∀ r, T.Alike (M r) (k r) (k' r) N) : T.Alike P (.ask q k) (.ask q k') N := by
  rintro s s' hs ⟨hc, hleft⟩ ⟨hc', hright⟩
  obtain ⟨hr, hM⟩ := hq s s' hs hc hc'
  simp only [Prog.exec]
  rw [hr] at hright ⊢
  exact hk _ _ _ hM hleft hright

/-- The sequence rule. -/
theorem Alike.bind {p p' : Prog Q R ε α} {f f' : α → Prog Q R ε β} {M : Except ε α → S → S' → Prop}
    {N : Except ε β → S → S' → Prop} (hp : T.Alike P p p' M) (hf : ∀ a, T.Alike (M (.ok a)) (f a) (f' a) N)
    (he : ∀ e s s', M (.error e) s s' → N (.error e) s s') : T.Alike P (p >>= f) (p' >>= f') N := by
  intro s s' hs hleft hright
  rw [Prog.along_bind] at hleft hright
  obtain ⟨hr, hM⟩ := hp s s' hs hleft.1 hright.1
  rw [Prog.exec_bind, Prog.exec_bind, hr]
  cases hx : (p.exec T.left s).1 with
  | ok a =>
    rw [hx] at hM
    exact hf a _ _ hM (hleft.2 a hx) (hright.2 a (hr.trans hx))
  | error e =>
    rw [hx] at hM
    exact ⟨rfl, he e _ _ hM⟩

theorem Alike.mapErr {f : ε → ε'} {p p' : Prog Q R ε α} {M : Except ε α → S → S' → Prop}
    {N : Except ε' α → S → S' → Prop} (hp : T.Alike P p p' M)
    (hN : ∀ r s s', M r s s' → N (r.mapError f) s s') : T.Alike P (p.mapErr f) (p'.mapErr f) N := by
  intro s s' hs hleft hright
  rw [Prog.along_mapErr] at hleft hright
  obtain ⟨hr, hM⟩ := hp s s' hs hleft hright
  rw [Prog.exec_mapErr, Prog.exec_mapErr, hr]
  exact ⟨rfl, hN _ _ _ hM⟩

/-- The rule of consequence. -/
theorem Alike.imp {p p' : Prog Q R ε α} {M N : Except ε α → S → S' → Prop} (hP : ∀ s s', P' s s' → P s s')
    (hN : ∀ r s s', M r s s' → N r s s') (hp : T.Alike P p p' M) : T.Alike P' p p' N :=
  fun s s' hs hleft hright =>
    ⟨(hp s s' (hP s s' hs) hleft hright).1, hN _ _ _ (hp s s' (hP s s' hs) hleft hright).2⟩

/-- A program whose questions get the same answers on both sides and keep the states related. -/
theorem Alike.of_only {A : Q → Prop} {p : Prog Q R ε α} (hp : p.Only A)
    (hA : ∀ q s s', A q → P s s' → (T.right q s').1 = (T.left q s).1 ∧ P (T.left q s).2 (T.right q s').2) :
    T.Alike P p p fun _ => P := by
  induction p with
  | ret a => exact .ret fun _ _ hs => hs
  | fail e => exact .fail fun _ _ hs => hs
  | ask q k ih =>
    exact .ask (M := fun _ => P) (fun s s' hs _ _ => hA q s s' hp.1 hs) fun r => ih r (hp.2 r trivial)

end Twin

end Effects
