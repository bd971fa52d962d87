import AgentVerse.Effects.Prog
import Mathlib.Data.List.Nodup

/-!
# Loops that stop at a failure

`forEach f L` does `f` for each element of `L` in turn, and the first failure ends it. When a turn that ends well
serves its element and touches no other one (`Serves`), the loop serves every element that it should, the failing
ones apart, exactly when no failing element has one behind it that should be served (`forEach_serves_iff`).
-/

namespace Effects

variable {Q : Type} {R : Q → Type} {ε S σ κ : Type}

namespace Prog

/-- Do `f` for each element, in order, up to the first failure. -/
def forEach (f : σ → Prog Q R ε Unit) : List σ → Prog Q R ε Unit
  | [] => ret ()
  | x :: L => f x >>= fun _ => forEach f L

/-- The elements whose turn comes, with how each turn ends. -/
def turns (h : Handler R S) (f : σ → Prog Q R ε Unit) : List σ → Config R S → List (σ × Except ε Unit)
  | [], _ => []
  | x :: L, c =>
    (x, ((f x).run h c).1) ::
      match ((f x).run h c).1 with
      | .ok _ => turns h f L ((f x).run h c).2
      | .error _ => []

/-- The turn of an element comes and fails. -/
def FailsIn (h : Handler R S) (f : σ → Prog Q R ε Unit) (L : List σ) (c : Config R S) (x : σ) : Prop :=
  ∃ e, (x, .error e) ∈ turns h f L c

/-- No element of `D` stands behind one whose turn fails. -/
def NoneBehind (h : Handler R S) (f : σ → Prog Q R ε Unit) (D : σ → Prop) (L : List σ) (c : Config R S) : Prop :=
  ∀ pre x post c' e, L = pre ++ x :: post → (forEach f pre).run h c = (.ok (), c') →
    ((f x).run h c').1 = .error e → ∀ y ∈ post, ¬ D y

/-- What the body of a loop promises. A turn that ends well does what is due for its element, and every turn leaves
what is due, and what is done, for elements with other keys. -/
structure Serves (h : Handler R S) (f : σ → Prog Q R ε Unit) (key : σ → κ)
    (Due Done : σ → Config R S → Prop) : Prop where
  serve : ∀ {x : σ} {c c' : Config R S}, Due x c → (f x).run h c = (.ok (), c') → Done x c'
  keepsDue : ∀ {x y : σ} {c : Config R S}, key x ≠ key y → Due y c → Due y ((f x).run h c).2
  keepsDone : ∀ {x y : σ} {c : Config R S}, key x ≠ key y → Done y c → Done y ((f x).run h c).2
  undone : ∀ {x : σ} {c : Config R S}, Due x c → ¬ Done x c

variable {h : Handler R S} {f : σ → Prog Q R ε Unit} {key : σ → κ} {Due Done : σ → Config R S → Prop}

theorem FailsIn.turn {L : List σ} {c : Config R S} {x : σ} (hx : FailsIn h f L c x) :
    x ∈ (turns h f L c).map Prod.fst := by
  obtain ⟨e, hmem⟩ := hx
  exact List.mem_map_of_mem hmem

/-- The invariant rule of a loop, whichever way it ends. -/
theorem forEach_keeps {I : Config R S → Prop} {L : List σ} (hI : ∀ x ∈ L, ∀ c, I c → I ((f x).run h c).2)
    {c : Config R S} (hc : I c) : I ((forEach f L).run h c).2 := by
  induction L generalizing c with
  | nil => exact hc
  | cons x L ih =>
    have hx := hI x List.mem_cons_self c hc
    rw [forEach, run_bind]
    cases ((f x).run h c).1 with
    | error e => exact hx
    | ok u => exact ih (fun y hy => hI y (List.mem_cons_of_mem _ hy)) hx

private theorem noneBehind_error {D : σ → Prop} {x : σ} {L : List σ} {c c' : Config R S} {e : ε}
    (hx : (f x).run h c = (.error e, c')) : NoneBehind h f D (x :: L) c ↔ ∀ y ∈ L, ¬ D y := by
  constructor
  · intro hb
    exact hb [] x L c e rfl rfl (by rw [hx])
  · intro hD pre z post c₁ e' hL hpre hz
    cases pre with
    | nil =>
      obtain ⟨rfl, rfl⟩ := List.cons_eq_cons.mp hL
      exact hD
    | cons z' pre =>
      obtain ⟨rfl, rfl⟩ := List.cons_eq_cons.mp hL
      rw [forEach, run_bind_error h hx] at hpre
      cases hpre

private theorem noneBehind_ok {D : σ → Prop} {x : σ} {L : List σ} {c c' : Config R S}
    (hx : (f x).run h c = (.ok (), c')) : NoneBehind h f D (x :: L) c ↔ NoneBehind h f D L c' := by
  constructor
  · intro hb pre z post c₁ e hL hpre hz
    refine hb (x :: pre) z post c₁ e (by rw [hL, List.cons_append]) ?_ hz
    rw [forEach, run_bind_ok h hx]
    exact hpre
  · intro hb pre z post c₁ e hL hpre hz
    cases pre with
    | nil =>
      obtain ⟨rfl, rfl⟩ := List.cons_eq_cons.mp hL
      cases hpre
      rw [hx] at hz
      cases hz
    | cons z' pre =>
      obtain ⟨rfl, rfl⟩ := List.cons_eq_cons.mp hL
      rw [forEach, run_bind_ok h hx] at hpre
      exact hb pre z post c₁ e rfl hpre hz

/-- A loop serves the elements of `D`, the failing ones apart, exactly when none of them stands behind a failing
one. -/
theorem forEach_serves_iff (hf : Serves h f key Due Done) {D : σ → Prop} {L : List σ} (hL : (L.map key).Nodup)
    {c : Config R S} (hD : ∀ x ∈ L, D x → Due x c) :
    (∀ x ∈ L, D x → FailsIn h f L c x ∨ Done x ((forEach f L).run h c).2) ↔ NoneBehind h f D L c := by
  induction L generalizing c with
  | nil => exact ⟨fun _ pre x post _ _ hnil => absurd hnil.symm (by simp), fun _ x hx => by cases hx⟩
  | cons x L ih =>
    rw [List.map_cons, List.nodup_cons] at hL
    obtain ⟨hfresh, hL⟩ := hL
    have hother : ∀ y ∈ L, key x ≠ key y := fun y hy hk => hfresh (hk ▸ List.mem_map_of_mem hy)
    rcases hx : (f x).run h c with ⟨r, c₁⟩
    cases r with
    | error e =>
      have hturns : turns h f (x :: L) c = [(x, .error e)] := by simp only [turns, hx]
      rw [noneBehind_error hx, forEach, run_bind_error h hx]
      constructor
      · intro hserved y hy hDy
        have hdue : Due y c₁ := by
          have := hf.keepsDue (hother y hy) (hD y (List.mem_cons_of_mem _ hy) hDy)
          rwa [hx] at this
        rcases hserved y (List.mem_cons_of_mem _ hy) hDy with ⟨e', hmem⟩ | hdone
        · rw [hturns, List.mem_singleton] at hmem
          exact hother y hy (by rw [(Prod.mk.inj hmem).1])
        · exact hf.undone hdue hdone
      · intro hnone y hy hDy
        rcases List.mem_cons.mp hy with rfl | hy
        · exact .inl ⟨e, by rw [hturns]; exact List.mem_singleton_self _⟩
        · exact absurd hDy (hnone y hy)
    | ok u =>
      have hturns : turns h f (x :: L) c = (x, .ok u) :: turns h f L c₁ := by simp only [turns, hx]
      have hfails : ∀ y, FailsIn h f (x :: L) c y ↔ FailsIn h f L c₁ y := by
        intro y
        simp only [FailsIn, hturns, List.mem_cons, Prod.mk.injEq, reduceCtorEq, and_false, false_or]
      have hD₁ : ∀ y ∈ L, D y → Due y c₁ := by
        intro y hy hDy
        have := hf.keepsDue (hother y hy) (hD y (List.mem_cons_of_mem _ hy) hDy)
        rwa [hx] at this
      rw [noneBehind_ok hx, ← ih hL hD₁, forEach, run_bind_ok h hx]
      constructor
      · intro hserved y hy hDy
        exact (hserved y (List.mem_cons_of_mem _ hy) hDy).imp_left (hfails y).mp
      · intro hserved y hy hDy
        rcases List.mem_cons.mp hy with rfl | hy
        · refine .inr (forEach_keeps (I := fun c => Done y c) (fun z hz c hc => ?_) ?_)
          · exact hf.keepsDone (Ne.symm (hother z hz)) hc
          · exact hf.serve (hD y List.mem_cons_self hDy) hx
        · exact (hserved y hy hDy).imp_left (hfails y).mpr

end Prog

end Effects
