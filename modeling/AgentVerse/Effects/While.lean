import Mathlib.Data.Nat.Notation

/-!
# Loops with a measure

A loop repeats its body until this ends it with a result, or panics. The body leaves a smaller measure each time, so a
loop is a total function. `loop_rule` is the invariant rule: a body that keeps an invariant and never panics under it
ends the loop with a result.
-/

namespace Effects

variable {σ α : Type}

/-- Repeat the body from state `s`; none is a panic. -/
def loop (body : σ → Option (α ⊕ σ)) (measure : σ → ℕ)
    (hbody : ∀ s s', body s = some (.inr s') → measure s' < measure s) (s : σ) : Option α :=
  match _hs : body s with
  | none => none
  | some (.inl a) => some a
  | some (.inr s') => loop body measure hbody s'
termination_by measure s
decreasing_by exact hbody s s' _hs

variable {body : σ → Option (α ⊕ σ)} {measure : σ → ℕ}
  {hbody : ∀ s s', body s = some (.inr s') → measure s' < measure s} {s s' : σ} {a : α}

theorem loop_done (hs : body s = some (.inl a)) : loop body measure hbody s = some a := by
  unfold loop
  split
  · rename_i h
    rw [hs] at h
    cases h
  · rename_i h
    rw [hs] at h
    cases h
    rfl
  · rename_i h
    rw [hs] at h
    cases h

theorem loop_next (hs : body s = some (.inr s')) : loop body measure hbody s = loop body measure hbody s' := by
  rw [loop.eq_def body measure hbody s]
  split
  · rename_i h
    rw [hs] at h
    cases h
  · rename_i h
    rw [hs] at h
    cases h
  · rename_i h
    rw [hs] at h
    cases h
    rfl

/-- The invariant rule for loops. -/
theorem loop_rule {I : σ → Prop} {P : α → Prop}
    (hI : ∀ s, I s → (∃ a, body s = some (.inl a) ∧ P a) ∨ ∃ s', body s = some (.inr s') ∧ I s') (hs : I s) :
    ∃ a, loop body measure hbody s = some a ∧ P a := by
  induction hn : measure s using Nat.strongRecOn generalizing s with
  | _ n ih =>
    rcases hI s hs with ⟨a, hdone, ha⟩ | ⟨s', hnext, hs'⟩
    · exact ⟨a, loop_done hdone, ha⟩
    · rw [loop_next hnext]
      exact ih (measure s') (hn ▸ hbody s s' hnext) hs' rfl

end Effects
