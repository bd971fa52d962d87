import Mathlib.Data.List.Sort
import Mathlib.Data.List.Perm.Subperm

/-!
# Rankings

The elements of a list with the greatest keys (`Best`). A ranking of some candidates is one of the whole list exactly
if no element that is not a candidate has a greater key than one that is ranked (`Best.widen_iff`).
-/

namespace Effects

variable {α κ : Type} [LinearOrder κ] {key : α → κ} {n : Nat} {l out candidates dropped : List α}

/-- The first elements of a list by descending key. Of elements with the same key, the earlier one comes first. -/
def best (key : α → κ) (n : Nat) (l : List α) : List α := (l.insertionSort fun a b => key b ≤ key a).take n

/-- At most `n` elements of a list, in descending order of their keys, than which no other one has a greater key. -/
structure Best (key : α → κ) (n : Nat) (l out : List α) : Prop where
  others : ∃ rest, (out ++ rest).Perm l ∧ ∀ b ∈ rest, ∀ a ∈ out, key b ≤ key a
  sorted : out.Pairwise fun a b => key b ≤ key a
  length : out.length = min n l.length

theorem best_spec (key : α → κ) (n : Nat) (l : List α) : Best key n l (best key n l) := by
  have htotal : Std.Total fun a b => key b ≤ key a := ⟨fun a b => le_total (key b) (key a)⟩
  have htrans : IsTrans α fun a b => key b ≤ key a := ⟨fun _ _ _ hab hbc => le_trans hbc hab⟩
  have hsorted : (l.insertionSort fun a b => key b ≤ key a).Pairwise fun a b => key b ≤ key a :=
    List.pairwise_insertionSort _ l
  have hperm := List.perm_insertionSort (fun a b => key b ≤ key a) l
  refine ⟨⟨(l.insertionSort fun a b => key b ≤ key a).drop n, ?_, ?_⟩, hsorted.sublist (List.take_sublist ..), ?_⟩
  · rwa [best, List.take_append_drop]
  · rw [← List.take_append_drop n (l.insertionSort _), List.pairwise_append] at hsorted
    intro b hb a ha
    exact hsorted.2.2 a ha b hb
  · rw [best, List.length_take, List.length_insertionSort]

/-- A ranking of no more elements than are asked for has them all. -/
theorem best_perm (h : l.length ≤ n) : (best key n l).Perm l := by
  rw [best, List.take_of_length_le (by rwa [List.length_insertionSort])]
  exact List.perm_insertionSort ..

namespace Best

theorem subperm (h : Best key n l out) : out.Subperm l := by
  obtain ⟨rest, hperm, -⟩ := h.others
  exact (List.sublist_append_left out rest).subperm.trans hperm.subperm

theorem of_perm {l' : List α} (h : Best key n l out) (hl : l.Perm l') : Best key n l' out := by
  obtain ⟨rest, hperm, hle⟩ := h.others
  exact ⟨⟨rest, hperm.trans hl, hle⟩, h.sorted, by rw [h.length, hl.length_eq]⟩

/-- What is ranked and what is not. -/
theorem perm_iff {rest : List α} (h : Best key n l out) (hperm : (out ++ rest).Perm l) :
    ∀ b ∈ rest, ∀ a ∈ out, key b ≤ key a := by
  obtain ⟨rest', hperm', hle⟩ := h.others
  have hrest : rest.Perm rest' := (List.perm_append_left_iff out).mp (hperm.trans hperm'.symm)
  exact fun b hb => hle b (hrest.subset hb)

/-- A ranking of candidates among all elements. -/
theorem widen_iff (h : Best key n candidates out) (hall : (candidates ++ dropped).Perm l)
    (hn : n ≤ candidates.length ∨ dropped = []) :
    Best key n l out ↔ ∀ d ∈ dropped, ∀ a ∈ out, key d ≤ key a := by
  obtain ⟨rest, hperm, hle⟩ := h.others
  have hsplit : (out ++ (rest ++ dropped)).Perm l := by
    rw [← List.append_assoc]
    exact (hperm.append_right dropped).trans hall
  constructor
  · intro hbest d hd
    exact hbest.perm_iff hsplit d (List.mem_append_right rest hd)
  · intro hdropped
    refine ⟨⟨rest ++ dropped, hsplit, fun b hb => ?_⟩, h.sorted, ?_⟩
    · rcases List.mem_append.mp hb with hb | hb
      · exact hle b hb
      · exact hdropped b hb
    · have hlen : candidates.length + dropped.length = l.length := by rw [← hall.length_eq, List.length_append]
      rcases hn with hn | rfl
      · rw [h.length]
        omega
      · rw [h.length]
        simp only [List.length_nil] at hlen
        omega

end Best

end Effects
