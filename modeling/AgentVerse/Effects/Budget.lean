import Mathlib.Data.List.Perm.Basic
import AgentVerse.Effects.Prog

/-!
# Budgets

Some questions of a program have a cost. `Spends cost stop p budget` says that, whatever the answers, `p` asks for
each cost at most as often as `budget` has it, until it asks a question that `stop` accepts. The rules follow the
operations of programs: a sequence spends what its parts spend.
-/

namespace Effects

variable {D : Type} [DecidableEq D]

/-- What is left of a budget after a cost, if the budget has it. -/
def spend : Option D → List D → Option (List D)
  | none, budget => some budget
  | some d, budget => if d ∈ budget then some (budget.erase d) else none

theorem spend_singleton (d : D) : spend (some d) [d] = some [] := by simp [spend]

theorem spend_perm {x : Option D} {budget left : List D} (h : spend x budget = some left) :
    (x.toList ++ left).Perm budget := by
  cases x with
  | none => rw [Option.some.inj h]; rfl
  | some d =>
    by_cases hd : d ∈ budget
    · simp only [spend, if_pos hd, Option.some.injEq] at h
      rw [← h]
      exact (List.perm_cons_erase hd).symm
    · simp [spend, hd] at h

theorem spend_mono {x : Option D} {budget budget' left : List D} (h : spend x budget = some left)
    (hb : budget.Subperm budget') : ∃ left', spend x budget' = some left' ∧ left.Subperm left' := by
  cases x with
  | none => exact ⟨budget', rfl, Option.some.inj h ▸ hb⟩
  | some d =>
    by_cases hd : d ∈ budget
    · simp only [spend, if_pos hd, Option.some.injEq] at h
      exact ⟨budget'.erase d, if_pos (hb.subset hd), h ▸ hb.erase d⟩
    · simp [spend, hd] at h

theorem spend_append {x : Option D} {budget left : List D} (h : spend x budget = some left) (budget' : List D) :
    spend x (budget ++ budget') = some (left ++ budget') := by
  cases x with
  | none => rw [← Option.some.inj h]; rfl
  | some d =>
    by_cases hd : d ∈ budget
    · simp only [spend, if_pos hd, Option.some.injEq] at h
      rw [spend, if_pos (List.mem_append_left _ hd), List.erase_append_left _ hd, h]
    · simp [spend, hd] at h

theorem spend_filter {x : Option D} {budget left : List D} (h : spend x budget = some left) (keep : D → Bool) :
    spend (x.filter keep) (budget.filter keep) = some (left.filter keep) := by
  cases x with
  | none => rw [← Option.some.inj h]; rfl
  | some d =>
    by_cases hd : d ∈ budget
    · simp only [spend, if_pos hd, Option.some.injEq] at h
      rw [← h]
      by_cases hk : keep d = true
      · rw [Option.filter_some_pos hk, spend, if_pos (List.mem_filter.mpr ⟨hd, hk⟩), List.erase_filter]
      · rw [Option.filter_some_neg (Bool.eq_false_iff.mpr hk), spend, ← List.erase_filter, List.erase_of_not_mem]
        exact fun hmem => hk (List.mem_filter.mp hmem).2
    · simp [spend, hd] at h

namespace Prog

variable {Q : Type} {R : Q → Type} {ε ε' α β : Type}

def Spends (cost : Q → Option D) (stop : Q → Bool) : Prog Q R ε α → List D → Prop
  | ret _, _ => True
  | fail _, _ => True
  | ask q k, budget => stop q = true ∨ ∃ left, spend (cost q) budget = some left ∧ ∀ r, (k r).Spends cost stop left

variable {cost : Q → Option D} {stop : Q → Bool} {budget budget' : List D} {p : Prog Q R ε α}

/-- A larger budget is as good, in any order. -/
theorem Spends.mono (hp : p.Spends cost stop budget) (hb : budget.Subperm budget') :
    p.Spends cost stop budget' := by
  induction p generalizing budget budget' with
  | ret a => trivial
  | fail e => trivial
  | ask q k ih =>
    rcases hp with h | ⟨left, hleft, h⟩
    · exact Or.inl h
    · obtain ⟨left', hleft', hsub⟩ := spend_mono hleft hb
      exact Or.inr ⟨left', hleft', fun r => ih r (h r) hsub⟩

/-- A program whose questions are free. -/
theorem Only.spends (hp : p.Only fun q => cost q = none) (budget : List D) : p.Spends cost stop budget := by
  induction p with
  | ret a => trivial
  | fail e => trivial
  | ask q k ih => exact Or.inr ⟨budget, by rw [hp.1]; rfl, fun r => ih r (hp.2 r trivial)⟩

/-- A program that begins with a question at which the counting stops. -/
theorem Opens.spends (hp : p.Opens fun q => stop q = true) (budget : List D) : p.Spends cost stop budget := by
  cases p with
  | ret a => trivial
  | fail e => trivial
  | ask q k => exact Or.inl hp

/-- The sequence rule. -/
theorem Spends.bind {f : α → Prog Q R ε β} (hp : p.Spends cost stop budget)
    (hf : ∀ a, (f a).Spends cost stop budget') : (p >>= f).Spends cost stop (budget ++ budget') := by
  induction p generalizing budget with
  | ret a => exact (hf a).mono (List.sublist_append_right ..).subperm
  | fail e => trivial
  | ask q k ih =>
    rcases hp with h | ⟨left, hleft, h⟩
    · exact Or.inl h
    · exact Or.inr ⟨_, spend_append hleft budget', fun r => ih r (h r)⟩

/-- A second part that spends nothing. -/
theorem Spends.bind_free {f : α → Prog Q R ε β} (hp : p.Spends cost stop budget)
    (hf : ∀ a, (f a).Spends cost stop []) : (p >>= f).Spends cost stop budget := by
  simpa using hp.bind hf

theorem Spends.mapErr {f : ε → ε'} (hp : p.Spends cost stop budget) : (p.mapErr f).Spends cost stop budget := by
  induction p generalizing budget with
  | ret a => trivial
  | fail e => trivial
  | ask q k ih => exact Or.imp_right (fun ⟨left, hleft, h⟩ => ⟨left, hleft, fun r => ih r (h r)⟩) hp

theorem Spends.attempt (hp : p.Spends cost stop budget) :
    (p.attempt : Prog Q R ε' (Except ε α)).Spends cost stop budget := by
  induction p generalizing budget with
  | ret a => trivial
  | fail e => trivial
  | ask q k ih => exact Or.imp_right (fun ⟨left, hleft, h⟩ => ⟨left, hleft, fun r => ih r (h r)⟩) hp

/-- A program that is cut off spends no more. -/
theorem Spends.cutOff {q₀ : Q} {halt : R q₀ → Bool} {e : ε} (hp : p.Spends cost stop budget)
    (hq : cost q₀ = none) : (p.cutOff q₀ halt e).Spends cost stop budget := by
  induction p generalizing budget with
  | ret a => trivial
  | fail e' => trivial
  | ask q k ih =>
    refine Or.inr ⟨budget, by rw [hq]; rfl, fun r => ?_⟩
    by_cases hr : halt r = true
    · simp only [if_pos hr]
      trivial
    · simp only [if_neg hr]
      exact Or.imp_right (fun ⟨left, hleft, h⟩ => ⟨left, hleft, fun r' => ih r' (h r')⟩) hp

/-- The count of some of the costs. -/
theorem Spends.filter (hp : p.Spends cost stop budget) (keep : D → Bool) :
    p.Spends (fun q => (cost q).filter keep) stop (budget.filter keep) := by
  induction p generalizing budget with
  | ret a => trivial
  | fail e => trivial
  | ask q k ih =>
    rcases hp with h | ⟨left, hleft, h⟩
    · exact Or.inl h
    · exact Or.inr ⟨left.filter keep, spend_filter hleft keep, fun r => ih r (h r)⟩

/-- A program that never asks a question at which the counting stops is counted to its end. -/
theorem Spends.unstopped (hp : p.Spends cost stop budget) (honly : p.Only fun q => stop q = false) :
    p.Spends cost (fun _ => false) budget := by
  induction p generalizing budget with
  | ret a => trivial
  | fail e => trivial
  | ask q k ih =>
    rcases hp with h | ⟨left, hleft, h⟩
    · rw [honly.1] at h
      cases h
    · exact Or.inr ⟨left, hleft, fun r => ih r (h r) (honly.2 r trivial)⟩

/-- What a run asks for, counted to its end, is within the budget. -/
theorem Spends.asked {S : Type} {h : Handler R S} (hp : p.Spends cost (fun _ => false) budget) (s : S) :
    ((p.asked h s).filterMap fun x => cost x.1).Subperm budget := by
  induction p generalizing budget s with
  | ret a => exact List.nil_subperm
  | fail e => exact List.nil_subperm
  | ask q k ih =>
    obtain ⟨left, hleft, hk⟩ := hp.resolve_left Bool.false_ne_true
    have hrest := ih _ (hk (h q s).1) (h q s).2
    rw [asked_ask]
    refine List.Subperm.trans ?_ (spend_perm hleft).subperm
    cases hc : cost q with
    | none => simpa [hc] using hrest
    | some d => simpa [hc] using (List.subperm_cons d).mpr hrest

end Prog

end Effects
