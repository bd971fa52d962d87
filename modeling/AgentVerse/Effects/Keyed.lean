import Mathlib.Data.List.Infix
import Mathlib.Data.List.Nodup

/-!
# Lists with keys

A list whose elements have different keys is a finite map. Its order is irrelevant for lookups (`find?_key_perm`),
and an element may be updated in place or replaced at the front (`map_update_perm`). In a list sorted by integer keys,
elements with consecutive keys stand next to each other (`Consecutive.isInfix`). For association lists, removals and
filters are read off lookups (`lookup_filter_ne`, `lookup_filter_value`).
-/

namespace Effects

variable {α κ : Type} [DecidableEq κ] {key : α → κ}

/-- In a list without repeated keys, the order does not matter for a lookup. -/
theorem find?_key_perm {l l' : List α} (h : l.Perm l') (hl : (l.map key).Nodup) (k : κ) :
    l.find? (fun x => key x = k) = l'.find? (fun x => key x = k) := by
  induction h with
  | nil => rfl
  | cons x h ih =>
    have hrest := ih (List.nodup_cons.mp hl).2
    simp only [List.find?_cons, hrest]
  | swap x y l =>
    have hne : key y ≠ key x := by
      intro heq
      simp [heq] at hl
    simp only [List.find?_cons]
    by_cases hx : key x = k
    · have hy : key y ≠ k := fun hy => hne (hy.trans hx.symm)
      simp [hx, hy]
    · simp [hx]
  | trans h₁ h₂ ih₁ ih₂ => exact (ih₁ hl).trans (ih₂ ((h₁.map key).nodup_iff.mp hl))

/-- Updating the element of a key in place, or moving it to the front. -/
theorem map_update_perm {l : List α} (hl : (l.map key).Nodup) {x : α} (hx : x ∈ l) (f : α → α) :
    (l.map fun y => if key y = key x then f y else y).Perm (f x :: l.filter fun y => key y ≠ key x) := by
  induction l with
  | nil => cases hx
  | cons y l ih =>
    obtain ⟨hy, hl⟩ := List.nodup_cons.mp hl
    by_cases hxy : key y = key x
    · have hrest : ∀ z ∈ l, key z ≠ key x := by
        intro z hz heq
        exact hy (by rw [hxy, ← heq]; exact List.mem_map_of_mem hz)
      have hmap : (l.map fun z => if key z = key x then f z else z) = l := by
        calc (l.map fun z => if key z = key x then f z else z)
            = l.map id := List.map_congr_left fun z hz => if_neg (hrest z hz)
          _ = l := List.map_id l
      have hfilter : (l.filter fun z => key z ≠ key x) = l :=
        List.filter_eq_self.mpr fun z hz => by simpa using hrest z hz
      have hhead : x = y := by
        rcases List.mem_cons.mp hx with h | h
        · exact h
        · exact absurd rfl (hrest x h)
      subst hhead
      rw [List.map_cons, if_pos rfl, hmap, List.filter_cons_of_neg (by simp), hfilter]
    · have hmem : x ∈ l := by
        rcases List.mem_cons.mp hx with h | h
        · exact absurd (congrArg key h.symm) hxy
        · exact h
      have hrest := ih hl hmem
      simp only [List.map_cons, List.filter_cons, decide_eq_true_eq, ne_eq, hxy, not_false_eq_true,
        if_true]
      exact (hrest.cons y).trans (List.Perm.swap (f x) y _)

/-- The one element of a key. -/
theorem filter_key_eq {l : List α} (hl : (l.map key).Nodup) {x : α} (hx : x ∈ l) :
    (l.filter fun y => key y = key x) = [x] := by
  induction l with
  | nil => cases hx
  | cons y l ih =>
    obtain ⟨hy, hl⟩ := List.nodup_cons.mp hl
    rcases List.mem_cons.mp hx with rfl | hmem
    · have hrest : (l.filter fun z => key z = key x) = [] := by
        refine List.filter_eq_nil_iff.mpr fun z hz heq => hy ?_
        rw [← of_decide_eq_true heq]
        exact List.mem_map_of_mem hz
      rw [List.filter_cons_of_pos (by simp), hrest]
    · have hne : key y ≠ key x := by
        intro heq
        exact hy (heq ▸ List.mem_map_of_mem hmem)
      rw [List.filter_cons_of_neg (by simpa using hne)]
      exact ih hl hmem

/-- An element moved to the front. -/
theorem perm_front {l : List α} (hl : (l.map key).Nodup) {x : α} (hx : x ∈ l) :
    l.Perm (x :: l.filter fun y => key y ≠ key x) := by
  have hperm := map_update_perm hl hx fun y => y
  simpa only [ite_self, List.map_id'] using hperm

/-! ### Association lists -/

section Lookup

variable {γ β : Type} [BEq γ] [LawfulBEq γ] [DecidableEq γ]

/-- A key that is removed is gone, and no other one is. -/
theorem lookup_filter_ne (l : List (γ × β)) (k k' : γ) :
    (l.filter fun x => x.1 ≠ k).lookup k' = if k' = k then none else l.lookup k' := by
  induction l with
  | nil => simp
  | cons x l ih =>
    obtain ⟨k₁, b⟩ := x
    by_cases hk : k₁ = k
    · subst hk
      rw [List.filter_cons_of_neg (by simp), ih]
      by_cases hk' : k' = k₁
      · rw [if_pos hk', if_pos hk']
      · rw [if_neg hk', if_neg hk', List.lookup_cons, beq_false_of_ne hk']
    · rw [List.filter_cons_of_pos (by simpa using hk), List.lookup_cons, List.lookup_cons, ih]
      by_cases hk' : k' = k₁
      · subst hk'
        simp [hk]
      · rw [beq_false_of_ne hk']

omit [DecidableEq γ] in
theorem lookup_none_of_notMem {l : List (γ × β)} {k : γ} (h : k ∉ l.map Prod.fst) : l.lookup k = none := by
  refine List.lookup_eq_none_iff.mpr fun x hx => ?_
  simpa using fun heq : k = x.1 => h (List.mem_map.mpr ⟨x, hx, heq.symm⟩)

/-- In a list without repeated keys, filtering by value filters what is looked up. -/
theorem lookup_filter_value {l : List (γ × β)} (hl : (l.map Prod.fst).Nodup) (p : β → Bool) (k : γ) :
    (l.filter fun x => p x.2).lookup k = (l.lookup k).filter p := by
  induction l with
  | nil => rfl
  | cons x l ih =>
    obtain ⟨k₁, b⟩ := x
    obtain ⟨hnot, hl⟩ := List.nodup_cons.mp hl
    have hrest := ih hl
    by_cases hk : k = k₁
    · subst hk
      have hnone : (l.filter fun x => p x.2).lookup k = none :=
        lookup_none_of_notMem fun h => hnot ((List.filter_sublist.map _).subset h)
      by_cases hp : p b = true
      · simp [hp, Option.filter]
      · simp [hp, hnone, Option.filter]
    · have hne : (k == k₁) = false := by simpa using hk
      by_cases hp : p b = true
      · simp [hp, List.lookup_cons, hne, hrest]
      · simp [hp, List.lookup_cons, hne, hrest]

end Lookup

/-! ### Consecutive keys -/

variable {num : α → Int}

/-- The elements have the keys `k`, `k + 1`, and so on. -/
def Consecutive (num : α → Int) (k : Int) : List α → Prop
  | [] => True
  | x :: l => num x = k ∧ Consecutive num (k + 1) l

theorem Consecutive.le {k : Int} {l : List α} (h : Consecutive num k l) : ∀ x ∈ l, k ≤ num x := by
  induction l generalizing k with
  | nil => simp
  | cons y l ih =>
    intro x hx
    rcases List.mem_cons.mp hx with rfl | hx
    · exact Int.le_of_eq h.1.symm
    · have hle := ih h.2 x hx
      omega

/-- Consecutive keys from the least possible one on are a prefix. -/
theorem Consecutive.isPrefix {k : Int} {l rows : List α} (hsorted : l.Pairwise fun x y => num x < num y)
    (hle : ∀ x ∈ l, k ≤ num x) (h : Consecutive num k rows) (hmem : ∀ x ∈ rows, x ∈ l) : rows <+: l := by
  induction rows generalizing k l with
  | nil => exact List.nil_prefix
  | cons r rows ih =>
    cases l with
    | nil => exact absurd (hmem r (by simp)) (by simp)
    | cons a l =>
      obtain ⟨ha, hrest⟩ := List.pairwise_cons.mp hsorted
      have hra : r = a := by
        rcases List.mem_cons.mp (hmem r (by simp)) with hr | hr
        · exact hr
        · have hlt := ha r hr
          have hka := hle a (by simp)
          have hkr := h.1
          omega
      subst hra
      have hkr := h.1
      refine List.cons_prefix_cons.mpr ⟨rfl, ih hrest (fun x hx => ?_) h.2 fun x hx => ?_⟩
      · have hlt := ha x hx
        omega
      · rcases List.mem_cons.mp (hmem x (List.mem_cons_of_mem _ hx)) with rfl | hx'
        · have hle' := h.2.le x hx
          omega
        · exact hx'

/-- Nothing stands between consecutive keys. -/
theorem Consecutive.isInfix {k : Int} {l rows : List α} (hsorted : l.Pairwise fun x y => num x < num y)
    (h : Consecutive num k rows) (hmem : ∀ x ∈ rows, x ∈ l) : rows <:+: l := by
  induction l with
  | nil =>
    have hnil : rows = [] := List.eq_nil_iff_forall_not_mem.mpr fun x hx => by simpa using hmem x hx
    exact hnil ▸ List.nil_infix
  | cons a l ih =>
    obtain ⟨ha, hrest⟩ := List.pairwise_cons.mp hsorted
    by_cases hka : k ≤ num a
    · refine (h.isPrefix hsorted (fun x hx => ?_) hmem).isInfix
      rcases List.mem_cons.mp hx with rfl | hx
      · exact hka
      · have hlt := ha x hx
        omega
    · refine (ih hrest fun x hx => ?_).trans (List.suffix_cons a l).isInfix
      rcases List.mem_cons.mp (hmem x hx) with rfl | hx'
      · exact absurd (h.le x hx) hka
      · exact hx'

end Effects
