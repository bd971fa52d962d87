import Mathlib.Data.List.Induction
import AgentVerse.Core.Text
import AgentVerse.Agent.Sessions

/-!
# Transition directives

`parse_phase_transition` finds a transition exactly in the texts whose last non-blank lines are its two directives, with
a non-blank line in front of them (`Directed`). A transition that is written down with any blank lines around the
directives is read back as it was, unless a line of its deliverable ends with a carriage return, which is then taken for
a part of the line ending.
-/

namespace AgentVerse

/-! ### Lines -/

/-- A line without its carriage return. -/
def stripCr (line : List Char) : List Char := closeLine line.reverse

/-- The lines of a text. -/
def linesOf (cs : List Char) : List (List Char) := linesFrom [] cs

/-- What `parse_phase_transition` makes of the lines of a text. -/
def transitionOf (lines : List (List Char)) : Option PhaseTransition :=
  match popBlank lines.reverse with
  | last :: rest => do
    let summary ← directive "SUMMARY:" last
    match popBlank rest with
    | [] => none
    | nextLine :: body =>
      let nextSkill ← directive "NEXT_SKILL:" nextLine
      let deliverable := "\n".toList.intercalate (popBlank body).reverse
      if (trim deliverable).isEmpty then none
      else some ⟨String.ofList nextSkill, String.ofList summary, String.ofList deliverable⟩
  | [] => none

theorem parsePhaseTransition_eq (output : String) :
    parsePhaseTransition output = transitionOf (linesOf (trimEnd output.toList)) := rfl

theorem stripCr_cases (line : List Char) : stripCr line = line ∧ line.getLast? ≠ some '\r' ∨
    line = stripCr line ++ ['\r'] := by
  induction line using List.reverseRecOn with
  | nil => exact .inl ⟨rfl, by simp⟩
  | append_singleton l c =>
    by_cases hc : c = '\r'
    · subst hc
      right
      simp [stripCr, closeLine]
    · left
      have hclose : closeLine (c :: l.reverse) = (c :: l.reverse).reverse := by
        unfold closeLine
        split
        · rename_i heq
          exact absurd (List.cons.inj heq).1 hc
        · rfl
      refine ⟨?_, by simpa using hc⟩
      rw [stripCr, List.reverse_append]
      exact hclose.trans (by simp)

theorem linesFrom_line {line : List Char} (h : '\n' ∉ line) (acc cs : List Char) :
    linesFrom acc (line ++ '\n' :: cs) = stripCr (acc.reverse ++ line) :: linesFrom [] cs := by
  induction line generalizing acc with
  | nil => simp [linesFrom, stripCr]
  | cons c line ih =>
    have hc : c ≠ '\n' := fun hc => h (hc ▸ List.mem_cons_self)
    rw [List.cons_append, linesFrom, if_neg hc, ih fun hline => h (List.mem_cons_of_mem _ hline)]
    simp

theorem linesFrom_last {line : List Char} (h : '\n' ∉ line) (acc : List Char) :
    linesFrom acc line = if (acc.reverse ++ line).isEmpty then [] else [acc.reverse ++ line] := by
  induction line generalizing acc with
  | nil => simp [linesFrom]
  | cons c line ih =>
    have hc : c ≠ '\n' := fun hc => h (hc ▸ List.mem_cons_self)
    rw [linesFrom, if_neg hc, ih fun hline => h (List.mem_cons_of_mem _ hline)]
    simp

/-- Lines with their line endings. -/
def ended (ls : List (List Char)) : List Char := ls.flatMap (· ++ ['\n'])

theorem ended_append (ls ls' : List (List Char)) : ended (ls ++ ls') = ended ls ++ ended ls' := List.flatMap_append

/-- Every text is some lines with their endings and a last one without. -/
theorem exists_ended (cs : List Char) : ∃ ls last, (∀ l ∈ ls, '\n' ∉ l) ∧ '\n' ∉ last ∧ cs = ended ls ++ last := by
  induction cs with
  | nil => exact ⟨[], [], by simp, by simp, rfl⟩
  | cons c cs ih =>
    obtain ⟨ls, last, hls, hlast, rfl⟩ := ih
    by_cases hc : c = '\n'
    · subst hc
      exact ⟨[] :: ls, last, List.forall_mem_cons.mpr ⟨List.not_mem_nil, hls⟩, hlast, rfl⟩
    · have hcons : ∀ l : List Char, '\n' ∉ l → '\n' ∉ c :: l :=
        fun l hl hmem => (List.mem_cons.mp hmem).elim (fun h => hc h.symm) hl
      cases ls with
      | nil => exact ⟨[], c :: last, by simp, hcons last hlast, rfl⟩
      | cons l ls =>
        obtain ⟨hl, hls⟩ := List.forall_mem_cons.mp hls
        exact ⟨(c :: l) :: ls, last, List.forall_mem_cons.mpr ⟨hcons l hl, hls⟩, hlast, rfl⟩

theorem linesOf_ended {ls : List (List Char)} (h : ∀ l ∈ ls, '\n' ∉ l) (cs : List Char) :
    linesOf (ended ls ++ cs) = ls.map stripCr ++ linesOf cs := by
  induction ls with
  | nil => rfl
  | cons l ls ih =>
    obtain ⟨hl, hls⟩ := List.forall_mem_cons.mp h
    have htext : ended (l :: ls) ++ cs = l ++ '\n' :: (ended ls ++ cs) := by simp [ended]
    rw [htext, linesOf, linesFrom_line hl]
    exact congrArg (stripCr l :: ·) (ih hls)

/-! ### Blank lines -/

theorem exists_popBlank (ls : List (List Char)) : ∃ gap, (∀ g ∈ gap, Blank g) ∧ ls = gap ++ popBlank ls := by
  refine ⟨ls.takeWhile fun l => l.all isWhitespace, fun g hg => ?_, List.takeWhile_append_dropWhile.symm⟩
  have hall : g.all isWhitespace = true :=
    List.mem_takeWhile_imp (p := fun l : List Char => l.all isWhitespace) hg
  exact List.all_eq_true.mp hall

theorem popBlank_append {gap : List (List Char)} (h : ∀ g ∈ gap, Blank g) (ls : List (List Char)) :
    popBlank (gap ++ ls) = popBlank ls :=
  List.dropWhile_append_of_pos fun g hg => List.all_eq_true.mpr (h g hg)

theorem popBlank_cons {l : List Char} (h : ¬ Blank l) (ls : List (List Char)) : popBlank (l :: ls) = l :: ls :=
  List.dropWhile_cons_of_neg fun hall => h (List.all_eq_true.mp hall)

theorem not_blank_of_popBlank {ls rest : List (List Char)} {l : List Char} (h : popBlank ls = l :: rest) :
    ¬ Blank l := by
  intro hl
  have hhead := List.head?_dropWhile_not (fun l : List Char => l.all isWhitespace) ls
  unfold popBlank at h
  rw [h] at hhead
  simp only [List.head?_cons] at hhead
  rw [List.all_eq_true.mpr hl] at hhead
  cases hhead

/-! ### Directives -/

/-- A line that is a directive with a value. -/
def IsDirective (name : String) (line value : List Char) : Prop :=
  ∃ rest, trim line = name.toList ++ rest ∧ trim rest = value ∧ value ≠ []

theorem directive_eq_some {name : String} {line value : List Char} :
    directive name line = some value ↔ IsDirective name line value := by
  unfold directive IsDirective
  dsimp only
  by_cases hprefix : name.toList.isPrefixOf (trim line) = true
  · rw [if_pos hprefix]
    obtain ⟨rest, hrest⟩ := List.isPrefixOf_iff_prefix.mp hprefix
    rw [← hrest, List.drop_left]
    by_cases hvalue : trim rest = []
    · simp [hvalue]
    · rw [if_neg (by simpa using hvalue)]
      constructor
      · intro h
        obtain rfl := Option.some.inj h
        exact ⟨rest, rfl, rfl, hvalue⟩
      · rintro ⟨rest', hrest', rfl, -⟩
        rw [List.append_cancel_left hrest']
  · rw [if_neg hprefix]
    constructor
    · intro h
      cases h
    · rintro ⟨rest, hrest, -⟩
      exact absurd (List.isPrefixOf_iff_prefix.mpr ⟨rest, hrest.symm⟩) hprefix

/-- A directive is no blank line. -/
theorem IsDirective.not_blank {name : String} {line value : List Char} (h : IsDirective name line value)
    (hname : name.toList ≠ []) : ¬ Blank line := by
  obtain ⟨rest, hrest, -, -⟩ := h
  intro hblank
  rw [trim_eq_nil.mpr hblank] at hrest
  exact hname (List.append_eq_nil_iff.mp hrest.symm).1

/-- Lines that end with the two directives, blank lines aside, after a line that is not blank. -/
def Directed (ls : List (List Char)) (t : PhaseTransition) : Prop :=
  ∃ body gap nextLine gap' summaryLine gap'',
    ls = body ++ gap ++ nextLine :: (gap' ++ summaryLine :: gap'') ∧
    (∀ l ∈ gap ++ gap' ++ gap'', Blank l) ∧ (∃ l ∈ body.getLast?, ¬ Blank l) ∧
    IsDirective "NEXT_SKILL:" nextLine t.nextSkill.toList ∧ IsDirective "SUMMARY:" summaryLine t.summary.toList ∧
    t.deliverable.toList = "\n".toList.intercalate body

/-- The joined lines are blank exactly if all of them are. -/
theorem blank_intercalate {ls : List (List Char)} : Blank ("\n".toList.intercalate ls) ↔ ∀ l ∈ ls, Blank l := by
  induction ls with
  | nil => simp [Blank]
  | cons l ls ih =>
    cases ls with
    | nil => simp
    | cons l' ls =>
      have hnewline : isWhitespace '\n' = true := by decide
      rw [List.intercalate_cons_cons, List.forall_mem_cons, ← ih]
      simp [Blank, or_imp, forall_and, hnewline]

/-- A transition is read from the two directive lines at the end. -/
theorem directed_of_transitionOf {ls : List (List Char)} {t : PhaseTransition} (h : transitionOf ls = some t) :
    Directed ls t := by
  unfold transitionOf at h
  obtain ⟨gap'', hgap'', hls⟩ := exists_popBlank ls.reverse
  cases hlast : popBlank ls.reverse with
  | nil =>
    rw [hlast] at h
    cases h
  | cons summaryLine rest =>
    rw [hlast] at h hls
    simp only [bind, Option.bind_eq_some_iff] at h
    obtain ⟨summary, hsummary, h⟩ := h
    obtain ⟨gap', hgap', hrest⟩ := exists_popBlank rest
    cases hnext : popBlank rest with
    | nil =>
      rw [hnext] at h
      cases h
    | cons nextLine body =>
      rw [hnext] at h hrest
      simp only [Option.bind_eq_some_iff] at h
      obtain ⟨nextSkill, hnextSkill, h⟩ := h
      obtain ⟨gap, hgap, hbody⟩ := exists_popBlank body
      split at h
      · cases h
      · rename_i hdeliverable
        obtain rfl := Option.some.inj h
        refine ⟨(popBlank body).reverse, gap.reverse, nextLine, gap'.reverse, summaryLine, gap''.reverse, ?_, ?_, ?_,
          ?_, ?_, ?_⟩
        · have hrev := congrArg List.reverse hls
          rw [List.reverse_reverse, hrest, hbody] at hrev
          rw [hrev]
          simp
        · simp only [List.mem_append, List.mem_reverse]
          rintro g ((hg | hg) | hg)
          · exact hgap g hg
          · exact hgap' g hg
          · exact hgap'' g hg
        · cases hpop : popBlank body with
          | nil =>
            rw [hpop] at hdeliverable
            exact absurd rfl hdeliverable
          | cons l rest => exact ⟨l, by simp, not_blank_of_popBlank hpop⟩
        · simpa using directive_eq_some.mp hnextSkill
        · simpa using directive_eq_some.mp hsummary
        · simp

/-- From the two directive lines at the end a transition is read. -/
theorem transitionOf_of_directed {ls : List (List Char)} {t : PhaseTransition} (h : Directed ls t) :
    transitionOf ls = some t := by
  obtain ⟨body, gap, nextLine, gap', summaryLine, gap'', rfl, hgaps, ⟨l, hl, hlast⟩, hnext, hsummary, hdeliverable⟩ := h
  obtain ⟨init, rfl⟩ := List.getLast?_eq_some_iff.mp hl
  have hpop : popBlank (gap.reverse ++ l :: init.reverse) = l :: init.reverse := by
    rw [popBlank_append fun g hg => hgaps g (by simp [List.mem_reverse.mp hg]), popBlank_cons hlast]
  have hpop' : popBlank (gap'.reverse ++ nextLine :: (gap.reverse ++ l :: init.reverse)) =
      nextLine :: (gap.reverse ++ l :: init.reverse) := by
    rw [popBlank_append fun g hg => hgaps g (by simp [List.mem_reverse.mp hg]),
      popBlank_cons (hnext.not_blank (by decide))]
  have hpop'' : popBlank ((init ++ [l]) ++ gap ++ nextLine :: (gap' ++ summaryLine :: gap'')).reverse =
      summaryLine :: (gap'.reverse ++ nextLine :: (gap.reverse ++ l :: init.reverse)) := by
    have hrev : ((init ++ [l]) ++ gap ++ nextLine :: (gap' ++ summaryLine :: gap'')).reverse =
        gap''.reverse ++ summaryLine :: (gap'.reverse ++ nextLine :: (gap.reverse ++ l :: init.reverse)) := by simp
    rw [hrev, popBlank_append fun g hg => hgaps g (by simp [List.mem_reverse.mp hg]),
      popBlank_cons (hsummary.not_blank (by decide))]
  have hbody : (l :: init.reverse).reverse = init ++ [l] := by simp
  have hkept : ¬ (trim ("\n".toList.intercalate (init ++ [l]))).isEmpty = true := by
    rw [List.isEmpty_iff, trim_eq_nil, blank_intercalate]
    exact fun hall => hlast (hall l (by simp))
  unfold transitionOf
  rw [hpop'']
  dsimp only
  rw [directive_eq_some.mpr hsummary]
  simp only [bind, Option.bind_some]
  rw [hpop']
  dsimp only
  rw [directive_eq_some.mpr hnext]
  simp only [Option.bind_some]
  rw [hpop, hbody, if_neg hkept, ← hdeliverable]
  simp

theorem transitionOf_eq_some {ls : List (List Char)} {t : PhaseTransition} :
    transitionOf ls = some t ↔ Directed ls t :=
  ⟨directed_of_transitionOf, transitionOf_of_directed⟩

/-! ### Whitespace at the end -/

theorem directive_congr {l l' : List Char} (h : trim l = trim l') (name : String) :
    directive name l = directive name l' := by
  unfold directive
  rw [h]

theorem transitionOf_blank {l : List Char} (h : Blank l) (ls : List (List Char)) :
    transitionOf (ls ++ [l]) = transitionOf ls := by
  have hpop : popBlank (ls ++ [l]).reverse = popBlank ls.reverse := by
    rw [List.reverse_append]
    exact popBlank_append (List.forall_mem_singleton.mpr h) ls.reverse
  unfold transitionOf
  rw [hpop]

/-- Only the trimmed text of the last line counts. -/
theorem transitionOf_congr {l l' : List Char} (h : trim l = trim l') (ls : List (List Char)) :
    transitionOf (ls ++ [l]) = transitionOf (ls ++ [l']) := by
  have hblank : Blank l ↔ Blank l' := by rw [← trim_eq_nil, h, trim_eq_nil]
  by_cases hl : Blank l
  · rw [transitionOf_blank hl, transitionOf_blank (hblank.mp hl)]
  · have hl' : ¬ Blank l' := fun hl' => hl (hblank.mpr hl')
    have hpop : ∀ l : List Char, ¬ Blank l → popBlank (ls ++ [l]).reverse = l :: ls.reverse := by
      intro l hl
      rw [List.reverse_append]
      exact popBlank_cons hl ls.reverse
    unfold transitionOf
    rw [hpop l hl, hpop l' hl']
    dsimp only
    rw [directive_congr h]

theorem trim_stripCr (line : List Char) : trim (stripCr line) = trim line := by
  rcases stripCr_cases line with ⟨hself, -⟩ | hcr
  · rw [hself]
  · have hblank : Blank ['\r'] := by decide
    conv_rhs => rw [hcr, trim_append_right hblank]

/-- The last line makes the same transition as with its line ending. -/
theorem transitionOf_linesOf {ls : List (List Char)} {last : List Char} (hls : ∀ l ∈ ls, '\n' ∉ l)
    (hlast : '\n' ∉ last) :
    transitionOf (linesOf (ended ls ++ last)) = transitionOf ((ls ++ [last]).map stripCr) := by
  rw [linesOf_ended hls, List.map_append]
  refine Eq.trans ?_ (transitionOf_congr (trim_stripCr last).symm (ls.map stripCr))
  rw [linesOf, linesFrom_last hlast]
  cases last with
  | nil => exact (congrArg transitionOf (List.append_nil _)).trans (transitionOf_blank (List.forall_mem_nil _) _).symm
  | cons c last => rfl

theorem transitionOf_append {w : List Char} (hw : Blank w) (cs : List Char) :
    transitionOf (linesOf (cs ++ w)) = transitionOf (linesOf cs) := by
  induction w using List.reverseRecOn with
  | nil => rw [List.append_nil]
  | append_singleton w c ih =>
    have hc : Blank [c] := fun c' hc' => hw c' (List.mem_append_right _ hc')
    rw [← ih fun c' hc' => hw c' (List.mem_append_left _ hc'), ← List.append_assoc]
    obtain ⟨ls, last, hls, hlast, hcs⟩ := exists_ended (cs ++ w)
    rw [hcs, transitionOf_linesOf hls hlast]
    by_cases hnewline : c = '\n'
    · subst hnewline
      have htext : ended ls ++ last ++ ['\n'] = ended (ls ++ [last]) ++ [] := by simp [ended]
      have hall : ∀ l ∈ ls ++ [last], '\n' ∉ l :=
        List.forall_mem_append.mpr ⟨hls, List.forall_mem_singleton.mpr hlast⟩
      rw [htext, linesOf_ended hall]
      exact congrArg transitionOf (List.append_nil _)
    · have hlast' : '\n' ∉ last ++ [c] := by simp [hlast, Ne.symm hnewline]
      rw [List.append_assoc, transitionOf_linesOf hls hlast', List.map_append, List.map_append]
      exact transitionOf_congr (by simp [trim_stripCr, trim_append_right hc]) _

theorem parsePhaseTransition_linesOf (output : String) :
    parsePhaseTransition output = transitionOf (linesOf output.toList) := by
  obtain ⟨w, hw, hcs⟩ := exists_trimEnd output.toList
  rw [parsePhaseTransition_eq]
  conv_rhs => rw [hcs, transitionOf_append hw]

/-! ### Writing a transition down -/

/-- Whitespace within a line. -/
abbrev BlankLine : Type := { l : List Char // Blank l ∧ '\n' ∉ l }

/-- The whitespace in front of a directive, after its name and after its value. -/
structure Margins where
  left : BlankLine
  middle : BlankLine
  right : BlankLine

/-- The blank lines in front of the directives, between them and after them, and the whitespace on their lines. -/
structure Layout where
  before : List BlankLine
  between : List BlankLine
  after : List BlankLine
  nextSkill : Margins
  summary : Margins

def Margins.line (m : Margins) (name value : String) : List Char :=
  m.left.val ++ (name.toList ++ m.middle.val ++ value.toList) ++ m.right.val

/-- The lines below the deliverable. -/
def Layout.below (lay : Layout) (t : PhaseTransition) : List (List Char) :=
  lay.before.map (·.val) ++ lay.nextSkill.line "NEXT_SKILL:" t.nextSkill ::
    (lay.between.map (·.val) ++ lay.summary.line "SUMMARY:" t.summary :: lay.after.map (·.val))

def Layout.render (lay : Layout) (t : PhaseTransition) : String :=
  String.ofList ("\n".toList.intercalate (t.deliverable.toList :: lay.below t))

/-- A trimmed text of one line that is not empty. -/
def SingleLine (s : String) : Prop := s.toList ≠ [] ∧ trim s.toList = s.toList ∧ '\n' ∉ s.toList

/-- The form of the transitions that are read: the last line of the deliverable is not blank. -/
structure NormalForm (t : PhaseTransition) : Prop where
  nextSkill : SingleLine t.nextSkill
  summary : SingleLine t.summary
  deliverable : ∃ l ∈ (t.deliverable.toList.splitOn '\n').getLast?, ¬ Blank l

theorem intercalate_append (ls : List (List Char)) (last : List Char) :
    "\n".toList.intercalate (ls ++ [last]) = ended ls ++ last := by
  induction ls with
  | nil => simp [ended]
  | cons l ls ih =>
    rw [List.cons_append, List.intercalate_cons_of_ne_nil (by simp), ih]
    simp [ended]

theorem splitOn_ended {ls : List (List Char)} {last : List Char} (hls : ∀ l ∈ ls, '\n' ∉ l) (hlast : '\n' ∉ last) :
    (ended ls ++ last).splitOn '\n' = ls ++ [last] := by
  have hall : ∀ l ∈ ls ++ [last], '\n' ∉ l := List.forall_mem_append.mpr ⟨hls, List.forall_mem_singleton.mpr hlast⟩
  have hsplit := List.splitOn_intercalate '\n' hall (by simp)
  rw [← intercalate_append]
  exact hsplit

theorem Margins.newline_not_mem {name value : String} (m : Margins) (hname : '\n' ∉ name.toList)
    (hvalue : '\n' ∉ value.toList) : '\n' ∉ m.line name value := by
  simp [line, m.left.property.2, m.middle.property.2, m.right.property.2, hname, hvalue]

theorem Margins.isDirective {name value : String} (m : Margins) (hname : ∃ c ∈ name.toList.head?, isWhitespace c = false)
    (hvalue : SingleLine value) : IsDirective name (m.line name value) value.toList := by
  obtain ⟨hne, htrimmed, -⟩ := hvalue
  obtain ⟨c, hc, hspace⟩ := hname
  refine ⟨m.middle.val ++ value.toList, ?_, ?_, hne⟩
  · unfold line
    rw [trim_append m.left.property.1 m.right.property.1, trim_eq_self, List.append_assoc]
    · intro c' hc'
      obtain ⟨cs, hcs⟩ := List.head?_eq_some_iff.mp hc
      rw [hcs] at hc'
      obtain rfl : c = c' := by simpa using hc'
      exact hspace
    · intro c' hc'
      rw [List.getLast?_append_of_ne_nil _ hne] at hc'
      exact last_of_trimmed htrimmed c' hc'
  · have h := trim_append m.middle.property.1 (List.forall_mem_nil _) value.toList
    rw [List.append_nil] at h
    exact h.trans htrimmed

theorem newline_not_mem_stripCr {l : List Char} (h : '\n' ∉ l) : '\n' ∉ stripCr l := by
  rcases stripCr_cases l with ⟨hself, -⟩ | hcr
  · rwa [hself]
  · rw [hcr] at h
    exact fun hmem => h (List.mem_append_left _ hmem)

theorem newline_not_mem_linesOf {cs l : List Char} (h : l ∈ linesOf cs) : '\n' ∉ l := by
  obtain ⟨ls, last, hls, hlast, rfl⟩ := exists_ended cs
  rw [linesOf_ended hls, linesOf, linesFrom_last hlast] at h
  rcases List.mem_append.mp h with h | h
  · obtain ⟨l, hl, rfl⟩ := List.mem_map.mp h
    exact newline_not_mem_stripCr (hls l hl)
  · split at h
    · cases h
    · rw [List.mem_singleton.mp h]
      exact hlast

theorem IsDirective.singleLine {name value : String} {line : List Char} (h : IsDirective name line value.toList)
    (hline : '\n' ∉ line) : SingleLine value := by
  obtain ⟨rest, hrest, hvalue, hne⟩ := h
  refine ⟨hne, by rw [← hvalue, trim_trim], fun hmem => hline ?_⟩
  obtain ⟨w, w', -, -, hcs⟩ := exists_trim line
  obtain ⟨v, v', -, -, hcs'⟩ := exists_trim rest
  rw [hcs, hrest, hcs', hvalue]
  simp [hmem]

/-- Every transition that is read has the normal form. -/
theorem Directed.normalForm {cs : List Char} {t : PhaseTransition} (h : Directed (linesOf cs) t) : NormalForm t := by
  obtain ⟨body, gap, nextLine, gap', summaryLine, gap'', hlines, -, ⟨l, hl, hblank⟩, hnext, hsummary, hdeliverable⟩ := h
  have hnewline : ∀ l ∈ body ++ gap ++ nextLine :: (gap' ++ summaryLine :: gap''), '\n' ∉ l :=
    fun l hl => newline_not_mem_linesOf (hlines ▸ hl)
  obtain ⟨init, rfl⟩ := List.getLast?_eq_some_iff.mp hl
  refine ⟨hnext.singleLine (hnewline _ (by simp)), hsummary.singleLine (hnewline _ (by simp)), l, ?_, hblank⟩
  have hinit : ∀ l' ∈ init, '\n' ∉ l' := fun l' hl' => hnewline l' (by simp [hl'])
  rw [hdeliverable, intercalate_append, splitOn_ended hinit (hnewline l (by simp))]
  simp

theorem Layout.newline_not_mem {t : PhaseTransition} (h : NormalForm t) (lay : Layout) :
    ∀ l ∈ lay.below t, '\n' ∉ l := by
  have hblank : ∀ ls : List BlankLine, ∀ l ∈ ls.map (·.val), '\n' ∉ l := by
    intro ls l hl
    obtain ⟨b, -, rfl⟩ := List.mem_map.mp hl
    exact b.property.2
  intro l hl
  simp only [below, List.mem_append, List.mem_cons] at hl
  rcases hl with hl | rfl | hl | rfl | hl
  · exact hblank _ l hl
  · exact lay.nextSkill.newline_not_mem (by decide) h.nextSkill.2.2
  · exact hblank _ l hl
  · exact lay.summary.newline_not_mem (by decide) h.summary.2.2
  · exact hblank _ l hl

theorem blank_stripCr {l : List Char} : Blank (stripCr l) ↔ Blank l := by
  rw [← trim_eq_nil, trim_stripCr, trim_eq_nil]

theorem IsDirective.stripCr {name : String} {line value : List Char} (h : IsDirective name line value) :
    IsDirective name (stripCr line) value := by
  unfold IsDirective at h ⊢
  rwa [trim_stripCr]

/-- What is read from a transition that was written down: the lines of its deliverable lose their carriage returns. -/
theorem parse_render {t : PhaseTransition} (h : NormalForm t) (lay : Layout) :
    parsePhaseTransition (lay.render t) = some ⟨t.nextSkill, t.summary,
      String.ofList ("\n".toList.intercalate ((t.deliverable.toList.splitOn '\n').map stripCr))⟩ := by
  obtain ⟨ds, d, hds, hd, hdeliverable⟩ := exists_ended t.deliverable.toList
  obtain ⟨l, hl, hblank⟩ := h.deliverable
  rw [hdeliverable, splitOn_ended hds hd] at hl ⊢
  obtain rfl : d = l := by simpa using hl
  -- the last line of the text, whichever it is
  obtain ⟨init, last, hbelow⟩ : ∃ init last, lay.below t = init ++ [last] := by
    rcases List.eq_nil_or_concat (lay.below t) with hnil | ⟨init, last, hconcat⟩
    · simp [Layout.below] at hnil
    · exact ⟨init, last, by simpa using hconcat⟩
  have hnewline := lay.newline_not_mem h
  rw [hbelow] at hnewline
  obtain ⟨hinit, hlast⟩ := List.forall_mem_append.mp hnewline
  have htext : "\n".toList.intercalate (t.deliverable.toList :: lay.below t) = ended (ds ++ d :: init) ++ last := by
    rw [hbelow, ← List.cons_append, intercalate_append, hdeliverable, ended_append]
    simp [ended]
  have hall : ∀ l ∈ ds ++ d :: init, '\n' ∉ l :=
    List.forall_mem_append.mpr ⟨hds, List.forall_mem_cons.mpr ⟨hd, hinit⟩⟩
  rw [parsePhaseTransition_linesOf, Layout.render, String.toList_ofList, htext,
    transitionOf_linesOf hall (hlast last (List.mem_singleton_self last)), transitionOf_eq_some]
  have hlines : ds ++ d :: init ++ [last] = (ds ++ [d]) ++ lay.below t := by simp [hbelow]
  have hgaps : ∀ ls : List BlankLine, ∀ l ∈ (ls.map (·.val)).map stripCr, Blank l := by
    intro ls l' hl'
    obtain ⟨l, hl, rfl⟩ := List.mem_map.mp hl'
    obtain ⟨b, -, rfl⟩ := List.mem_map.mp hl
    exact blank_stripCr.mpr b.property.1
  refine ⟨(ds ++ [d]).map stripCr, (lay.before.map (·.val)).map stripCr, _, (lay.between.map (·.val)).map stripCr, _,
    (lay.after.map (·.val)).map stripCr, by rw [hlines, Layout.below]; simp, ?_, ⟨stripCr d, by simp, ?_⟩,
    (lay.nextSkill.isDirective ?_ h.nextSkill).stripCr, (lay.summary.isDirective ?_ h.summary).stripCr, by simp⟩
  · exact List.forall_mem_append.mpr ⟨List.forall_mem_append.mpr ⟨hgaps _, hgaps _⟩, hgaps _⟩
  · exact fun hd => hblank (blank_stripCr.mp hd)
  · exact ⟨'N', rfl, by decide⟩
  · exact ⟨'S', rfl, by decide⟩

/-- A line without its carriage return is the line itself unless it has one. -/
theorem map_stripCr_eq {ls : List (List Char)} : ls.map stripCr = ls ↔ ∀ l ∈ ls, l.getLast? ≠ some '\r' := by
  have hline : ∀ l : List Char, stripCr l = l ↔ l.getLast? ≠ some '\r' := by
    intro l
    rcases stripCr_cases l with ⟨hself, hlast⟩ | hcr
    · exact ⟨fun _ => hlast, fun _ => hself⟩
    · have hlength := congrArg List.length hcr
      have hend : l.getLast? = some '\r' := by
        rw [hcr]
        simp
      simp only [List.length_append, List.length_singleton] at hlength
      refine ⟨fun hself => ?_, fun hne => absurd hend hne⟩
      rw [hself] at hlength
      omega
  have hmap := List.map_inj_left (f := stripCr) (g := id) (l := ls)
  rw [List.map_id] at hmap
  rw [hmap]
  exact forall₂_congr fun l _ => hline l

/-- A text has a transition exactly if its last non-blank lines are the two directives, after some other non-blank
line, and then it is the one that is written there, in normal form. A transition in normal form that is written down
is read back exactly if no line of its deliverable ends with a carriage return. -/
theorem phase_transition_exact :
    (∀ output t, parsePhaseTransition output = some t ↔ Directed (linesOf output.toList) t) ∧
    (∀ output t, parsePhaseTransition output = some t → NormalForm t) ∧
    ∀ t, NormalForm t → ∀ lay : Layout, parsePhaseTransition (lay.render t) = some t ↔
      ∀ l ∈ t.deliverable.toList.splitOn '\n', l.getLast? ≠ some '\r' := by
  have hread : ∀ output t, parsePhaseTransition output = some t ↔ Directed (linesOf output.toList) t := by
    intro output t
    rw [parsePhaseTransition_linesOf, transitionOf_eq_some]
  refine ⟨hread, fun output t h => ((hread output t).mp h).normalForm, fun t h lay => ?_⟩
  obtain ⟨ds, d, hds, hd, hdeliverable⟩ := exists_ended t.deliverable.toList
  have hall : ∀ l ∈ ds ++ [d], '\n' ∉ l := List.forall_mem_append.mpr ⟨hds, List.forall_mem_singleton.mpr hd⟩
  have hall' : ∀ l ∈ (ds ++ [d]).map stripCr, '\n' ∉ l := by
    intro l' hl'
    obtain ⟨l, hl, rfl⟩ := List.mem_map.mp hl'
    exact newline_not_mem_stripCr (hall l hl)
  rw [parse_render h lay, ← map_stripCr_eq, hdeliverable, splitOn_ended hds hd]
  constructor
  · intro hback
    have htext : "\n".toList.intercalate ((ds ++ [d]).map stripCr) = "\n".toList.intercalate (ds ++ [d]) := by
      rw [intercalate_append ds d, ← hdeliverable, ← Option.some.inj hback]
      exact String.toList_ofList.symm
    have hsplit := congrArg (·.splitOn '\n') htext
    have hleft := List.splitOn_intercalate '\n' hall' (by simp)
    have hright := List.splitOn_intercalate '\n' hall (by simp)
    exact hleft.symm.trans (hsplit.trans hright)
  · intro hself
    rw [hself, intercalate_append, ← hdeliverable, String.ofList_toList]

/-- A deliverable that holds the directives itself. -/
theorem phase_transition_exact_nested :
    let t : PhaseTransition := ⟨"b", "c", "NEXT_SKILL: a\nSUMMARY: a"⟩
    let blank : BlankLine := ⟨[], by decide, by decide⟩
    let space : BlankLine := ⟨[' '], by decide, by decide⟩
    let lay : Layout := ⟨[blank], [], [space, blank], ⟨blank, space, blank⟩, ⟨blank, space, space⟩⟩
    lay.render t = "NEXT_SKILL: a\nSUMMARY: a\n\nNEXT_SKILL: b\nSUMMARY: c \n \n" ∧
      parsePhaseTransition (lay.render t) = some t := by
  refine ⟨by decide, (phase_transition_exact.2.2 _ ⟨⟨by decide, by decide, by decide⟩, ⟨by decide, by decide, by decide⟩,
    ⟨"SUMMARY: a".toList, by decide, by decide⟩⟩ _).mpr (by decide)⟩

/-- A deliverable that ends with a carriage return is read, written down and read again without it. -/
theorem carriage_return_lost :
    let t : PhaseTransition := ⟨"a", "b", "abc\r"⟩
    let blank : BlankLine := ⟨[], by decide, by decide⟩
    let space : BlankLine := ⟨[' '], by decide, by decide⟩
    let lay : Layout := ⟨[], [], [], ⟨blank, space, blank⟩, ⟨blank, space, blank⟩⟩
    parsePhaseTransition "abc\r\r\nNEXT_SKILL: a\nSUMMARY: b" = some t ∧
      lay.render t = "abc\r\nNEXT_SKILL: a\nSUMMARY: b" ∧
      parsePhaseTransition (lay.render t) = some ⟨"a", "b", "abc"⟩ ∧ parsePhaseTransition (lay.render t) ≠ some t := by
  decide

end AgentVerse
