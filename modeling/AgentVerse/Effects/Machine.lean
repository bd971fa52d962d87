import Mathlib.Algebra.Ring.Int.Defs
import Mathlib.Algebra.BigOperators.Group.List.Basic

/-!
# Machines

A machine reads inputs one by one, answers each, and moves to its next state. The rules for whole runs: an invariant
(`Conforms.preserves`), a simulation between two machines (`Simulation.outputs_eq`), a quantity that moves with the
answers (`Conforms.balance`) and an event that closes the state for itself (`Conforms.once`).
-/

namespace Effects

structure Machine (I O S : Type) where
  step : S → I → O × S

namespace Machine

variable {I O S T : Type} (M : Machine I O S)

/-- The state after a list of inputs. -/
def run (s : S) : List I → S
  | [] => s
  | i :: is => run (M.step s i).2 is

/-- The answers to a list of inputs. -/
def outputs (s : S) : List I → List O
  | [] => []
  | i :: is => (M.step s i).1 :: outputs (M.step s i).2 is

/-- Every input satisfies `C` in the state it meets. -/
def Conforms (C : S → I → Prop) (s : S) : List I → Prop
  | [] => True
  | i :: is => C s i ∧ Conforms C (M.step s i).2 is

instance decConforms (C : S → I → Prop) [∀ s i, Decidable (C s i)] (s : S) (is : List I) :
    Decidable (M.Conforms C s is) :=
  match is with
  | [] => inferInstanceAs (Decidable True)
  | i :: is => @instDecidableAnd _ _ inferInstance (decConforms C (M.step s i).2 is)

theorem run_append (s : S) (is js : List I) : M.run s (is ++ js) = M.run (M.run s is) js := by
  induction is generalizing s with
  | nil => rfl
  | cons i is ih => exact ih _

theorem outputs_append (s : S) (is js : List I) :
    M.outputs s (is ++ js) = M.outputs s is ++ M.outputs (M.run s is) js := by
  induction is generalizing s with
  | nil => rfl
  | cons i is ih =>
    have htail := ih (M.step s i).2
    rw [List.cons_append, outputs, htail]
    rfl

@[simp] theorem length_outputs (s : S) (is : List I) : (M.outputs s is).length = is.length := by
  induction is generalizing s with
  | nil => rfl
  | cons i is ih =>
    have htail := ih (M.step s i).2
    rw [outputs, List.length_cons, htail, List.length_cons]

variable {M} {C : S → I → Prop} {P : S → Prop}

theorem Conforms.append {s : S} {is js : List I} (h : M.Conforms C s (is ++ js)) :
    M.Conforms C s is ∧ M.Conforms C (M.run s is) js := by
  induction is generalizing s with
  | nil => exact ⟨trivial, h⟩
  | cons i is ih =>
    obtain ⟨his, hjs⟩ := ih h.2
    exact ⟨⟨h.1, his⟩, hjs⟩

/-- What every step preserves, a run preserves. -/
theorem Conforms.preserves {s : S} {is : List I} (h : M.Conforms C s is)
    (hstep : ∀ s i, P s → C s i → P (M.step s i).2) (hs : P s) : P (M.run s is) := by
  induction is generalizing s with
  | nil => exact hs
  | cons i is ih =>
    have hnext : P (M.step s i).2 := hstep s i hs h.1
    exact ih h.2 hnext

/-- A quantity that each step changes by what its answer says. -/
theorem Conforms.balance {s : S} {is : List I} (h : M.Conforms C s is) (quantity : S → Int) (change : O → Int)
    (hstep : ∀ s i, P s → C s i →
      P (M.step s i).2 ∧ quantity (M.step s i).2 = quantity s + change (M.step s i).1) (hs : P s) :
    quantity (M.run s is) = quantity s + ((M.outputs s is).map change).sum := by
  induction is generalizing s with
  | nil => simp [run, outputs]
  | cons i is ih =>
    obtain ⟨hnext, hq⟩ := hstep s i hs h.1
    have hrest := ih h.2 hnext
    simp only [run, outputs, List.map_cons, List.sum_cons]
    omega

/-- The inputs of a run whose answers make them the event `E`. -/
def occurrences (E : I → O → Bool) (s : S) (is : List I) : List (I × O) :=
  (is.zip (M.outputs s is)).filter fun x => E x.1 x.2

/-- An event that cannot happen in a closed state, and that closes the state, happens at most once. -/
theorem Conforms.once {s : S} {is : List I} (h : M.Conforms C s is) {E : I → O → Bool} (closed : S → Prop)
    (hkeep : ∀ s i, C s i → closed s → closed (M.step s i).2)
    (hevent : ∀ s i, C s i → E i (M.step s i).1 = true → ¬ closed s ∧ closed (M.step s i).2) :
    (M.occurrences E s is).length ≤ 1 ∧ (closed s → M.occurrences E s is = []) := by
  induction is generalizing s with
  | nil => simp [occurrences, outputs]
  | cons i is ih =>
    obtain ⟨hone, hnone⟩ := ih h.2
    have hcons : M.occurrences E s (i :: is) =
        (if E i (M.step s i).1 then [(i, (M.step s i).1)] else []) ++ M.occurrences E (M.step s i).2 is := by
      unfold occurrences
      rw [outputs, List.zip_cons_cons, List.filter_cons]
      split <;> rfl
    rw [hcons]
    by_cases he : E i (M.step s i).1 = true
    · obtain ⟨hopen, hclosed⟩ := hevent s i h.1 he
      rw [if_pos he, hnone hclosed]
      exact ⟨by simp, fun hs => absurd hs hopen⟩
    · rw [if_neg he]
      exact ⟨hone, fun hs => hnone (hkeep s i h.1 hs)⟩

/-- `N` answers like `M` in states related by `R`, as long as the inputs satisfy `C`. -/
structure Simulation (M : Machine I O S) (N : Machine I O T) (C : S → I → Prop) (R : S → T → Prop) : Prop where
  output : ∀ s t i, R s t → C s i → (N.step t i).1 = (M.step s i).1
  next : ∀ s t i, R s t → C s i → R (M.step s i).2 (N.step t i).2

variable {N : Machine I O T} {R : S → T → Prop}

theorem Simulation.run (hsim : Simulation M N C R) {s : S} {t : T} (hR : R s t) {is : List I}
    (h : M.Conforms C s is) : R (M.run s is) (N.run t is) := by
  induction is generalizing s t with
  | nil => exact hR
  | cons i is ih =>
    have hnext := hsim.next s t i hR h.1
    exact ih hnext h.2

theorem Simulation.outputs_eq (hsim : Simulation M N C R) {s : S} {t : T} (hR : R s t) {is : List I}
    (h : M.Conforms C s is) : N.outputs t is = M.outputs s is := by
  induction is generalizing s t with
  | nil => rfl
  | cons i is ih =>
    have hhead := hsim.output s t i hR h.1
    have htail := ih (hsim.next s t i hR h.1) h.2
    simp only [outputs, hhead, htail]

/-! ### Histories -/

/-- The inputs of a run with their answers. -/
def history (M : Machine I O S) (s : S) (is : List I) : List (I × O) := is.zip (M.outputs s is)

/-- What every step keeps of the history and the state together, a run keeps. -/
theorem history_rule {J : List (I × O) → S → Prop}
    (hstep : ∀ h s i, J h s → J (h ++ [(i, (M.step s i).1)]) (M.step s i).2) {s : S} (hs : J [] s) (is : List I) :
    J (M.history s is) (M.run s is) := by
  suffices hall : ∀ h s, J h s → J (h ++ M.history s is) (M.run s is) from hall [] s hs
  intro h s hs
  induction is generalizing h s with
  | nil => simpa [history, run] using hs
  | cons i is ih =>
    have hrest := ih _ _ (hstep h s i hs)
    rwa [List.append_assoc] at hrest

/-! ### Dull answers -/

/-- The inputs of a run whose answers are not dull. -/
def lively (M : Machine I O S) (dull : O → Bool) (s : S) : List I → List I
  | [] => []
  | i :: is => if dull (M.step s i).1 then lively M dull (M.step s i).2 is
    else i :: lively M dull (M.step s i).2 is

/-- States alike for the inputs to come: they answer alike, and a dull answer makes no difference. -/
structure Dulls (M : Machine I O S) (dull : O → Bool) (R : List I → S → S → Prop) : Prop where
  output : ∀ i is s t, R (i :: is) s t → (M.step t i).1 = (M.step s i).1
  next : ∀ i is s t, R (i :: is) s t → R is (M.step s i).2 (M.step t i).2
  skip : ∀ i is s t, R (i :: is) s t → dull (M.step s i).1 = true → R is (M.step s i).2 t

/-- The inputs with dull answers can be left out of a run. -/
theorem Dulls.outputs {dull : O → Bool} {R : List I → S → S → Prop} (h : Dulls M dull R) {s t : S} {is : List I}
    (hR : R is s t) :
    M.outputs t (M.lively dull s is) = (M.outputs s is).filter (fun o => !dull o) ∧
      R [] (M.run s is) (M.run t (M.lively dull s is)) := by
  induction is generalizing s t with
  | nil => exact ⟨rfl, hR⟩
  | cons i is ih =>
    by_cases hdull : dull (M.step s i).1 = true
    · obtain ⟨hout, hrun⟩ := ih (h.skip i is s t hR hdull)
      simp only [lively, Machine.outputs, Machine.run, hdull, if_true, List.filter_cons]
      exact ⟨by simpa using hout, hrun⟩
    · obtain ⟨hout, hrun⟩ := ih (h.next i is s t hR)
      have hsame : (M.step t i).1 = (M.step s i).1 := h.output i is s t hR
      rw [lively, if_neg hdull, Machine.outputs, Machine.outputs, List.filter_cons_of_pos (by simpa using hdull), hout,
        hsame]
      exact ⟨rfl, hrun⟩

end Machine

end Effects
