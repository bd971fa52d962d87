import Mathlib.Data.List.DropRight
import Mathlib.Data.List.TakeWhile
import AgentVerse.Core.Types

/-!
# Trimming

Whitespace around a text makes no difference to the trimmed text (`trim_append`), a trimmed text neither starts nor ends
with whitespace (`trim_eq_self`), and nothing is left of a text exactly if it is whitespace alone (`trim_eq_nil`).
-/

namespace AgentVerse

/-- A text of whitespace alone. -/
abbrev Blank (cs : List Char) : Prop := ∀ c ∈ cs, isWhitespace c = true

/-- The characters of a text are checked one by one, and not all characters there are. -/
instance decidableForallChar (p : Char → Prop) [DecidablePred p] (cs : List Char) : Decidable (∀ c ∈ cs, p c) :=
  List.decidableBAll p cs

variable {cs w w' : List Char}

/-! ### One end -/

theorem trimStart_append (h : Blank w) (cs : List Char) : trimStart (w ++ cs) = trimStart cs :=
  List.dropWhile_append_of_pos h

theorem trimEnd_append (h : Blank w) (cs : List Char) : trimEnd (cs ++ w) = trimEnd cs := by
  unfold trimEnd
  rw [List.reverse_append, List.dropWhile_append_of_pos fun c hc => h c (List.mem_reverse.mp hc)]

theorem trimStart_eq_nil : trimStart cs = [] ↔ Blank cs := List.dropWhile_eq_nil_iff

theorem trimEnd_eq_nil : trimEnd cs = [] ↔ Blank cs := List.rdropWhile_eq_nil_iff

theorem exists_trimStart (cs : List Char) : ∃ w, Blank w ∧ cs = w ++ trimStart cs :=
  ⟨cs.takeWhile isWhitespace, fun _ hc => List.mem_takeWhile_imp hc, List.takeWhile_append_dropWhile.symm⟩

theorem exists_trimEnd (cs : List Char) : ∃ w, Blank w ∧ cs = trimEnd cs ++ w := by
  obtain ⟨w, hw, hcs⟩ := exists_trimStart cs.reverse
  refine ⟨w.reverse, fun c hc => hw c (List.mem_reverse.mp hc), ?_⟩
  have hrev := congrArg List.reverse hcs
  rwa [List.reverse_reverse, List.reverse_append] at hrev

theorem trimStart_append_of_not_blank (h : ¬ Blank cs) (w : List Char) : trimStart (cs ++ w) = trimStart cs ++ w := by
  have hne : (trimStart cs).isEmpty = false := by
    rw [← Bool.not_eq_true, List.isEmpty_iff, trimStart_eq_nil]
    exact h
  unfold trimStart at hne ⊢
  rw [List.dropWhile_append, if_neg (by simp [hne])]

/-! ### Both ends -/

theorem trim_eq_nil : trim cs = [] ↔ Blank cs := by
  unfold trim
  rw [trimEnd_eq_nil]
  constructor
  · intro h
    obtain ⟨w, hw, hcs⟩ := exists_trimStart cs
    rw [hcs]
    exact fun c hc => (List.mem_append.mp hc).elim (hw c) (h c)
  · exact fun h => trimStart_eq_nil.mpr h ▸ fun c hc => absurd hc List.not_mem_nil

theorem trim_append (hw : Blank w) (hw' : Blank w') (cs : List Char) : trim (w ++ cs ++ w') = trim cs := by
  by_cases hcs : Blank cs
  · have hall : Blank (w ++ cs ++ w') := by
      intro c hc
      simp only [List.mem_append] at hc
      rcases hc with (hc | hc) | hc
      · exact hw c hc
      · exact hcs c hc
      · exact hw' c hc
    rw [trim_eq_nil.mpr hall, trim_eq_nil.mpr hcs]
  · unfold trim
    rw [List.append_assoc, trimStart_append hw, trimStart_append_of_not_blank hcs, trimEnd_append hw']

theorem trim_append_right (hw : Blank w) (cs : List Char) : trim (cs ++ w) = trim cs :=
  trim_append (List.forall_mem_nil _) hw cs

theorem exists_trim (cs : List Char) : ∃ w w', Blank w ∧ Blank w' ∧ cs = w ++ trim cs ++ w' := by
  obtain ⟨w, hw, hcs⟩ := exists_trimStart cs
  obtain ⟨w', hw', hstart⟩ := exists_trimEnd (trimStart cs)
  refine ⟨w, w', hw, hw', ?_⟩
  rw [List.append_assoc]
  exact hcs.trans (congrArg (w ++ ·) hstart)

@[simp] theorem trim_trim (cs : List Char) : trim (trim cs) = trim cs := by
  obtain ⟨w, w', hw, hw', hcs⟩ := exists_trim cs
  have htrim := trim_append hw hw' (trim cs)
  rw [← hcs] at htrim
  exact htrim.symm

/-- A text between characters other than whitespace is trimmed. -/
theorem trim_eq_self (hhead : ∀ c ∈ cs.head?, isWhitespace c = false)
    (hlast : ∀ c ∈ cs.getLast?, isWhitespace c = false) : trim cs = cs := by
  have hstart : trimStart cs = cs := by
    cases cs with
    | nil => rfl
    | cons c cs => exact List.dropWhile_cons_of_neg (by simp [hhead c rfl])
  unfold trim
  rw [hstart]
  refine List.rdropWhile_eq_self_iff.mpr fun hne => ?_
  simp [hlast _ (List.getLast?_eq_getLast_of_ne_nil hne)]

/-- A trimmed text does not end with whitespace. -/
theorem last_of_trimmed (h : trim cs = cs) : ∀ c ∈ cs.getLast?, isWhitespace c = false := by
  intro c hc
  by_contra hspace
  obtain ⟨l, rfl⟩ := List.getLast?_eq_some_iff.mp hc
  have hblank : Blank [c] := by
    intro c' hc'
    rw [List.mem_singleton.mp hc']
    simpa using hspace
  have htrim : trim (l ++ [c]) = trim l := trim_append_right hblank l
  obtain ⟨w, w', -, -, hl⟩ := exists_trim l
  have hlength := congrArg List.length (htrim.symm.trans h)
  have hlength' := congrArg List.length hl
  simp only [List.length_append, List.length_singleton] at hlength hlength'
  omega

end AgentVerse
