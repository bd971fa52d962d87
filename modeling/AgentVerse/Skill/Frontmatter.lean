import AgentVerse.Core.Offsets
import AgentVerse.Core.Text
import AgentVerse.Effects.While
import AgentVerse.Skill.Registry

/-!
# Skill files

A skill file is YAML frontmatter between two lines of dashes, and a body. `split_frontmatter` searches for a newline
that is followed by dashes, and the newline that ends the opening line is not searched. So it sees the closing lines but
one that is directly behind the opening line (`splitFrontmatter_exact`).
-/

namespace AgentVerse

open Effects Utf8
open String (utf8Len)

/-! ### `split_frontmatter` -/

/-- One turn of the search for the closing delimiter. -/
def closingTurn (afterOpen : List Char) (pos : Nat) : Option (Option (List Char × List Char) ⊕ Nat) := do
  match Utf8.find "\n---".toList (← sliceFrom afterOpen pos) with
  | none => return .inl none
  | some rel =>
    let abs := pos + rel
    let rest ← sliceFrom afterOpen (abs + 4)
    let lineEnd := (Utf8.find ['\n'] rest).getD (utf8Len rest)
    if (trim (← sliceTo rest lineEnd)).isEmpty then
      let frontmatter := (← sliceTo afterOpen abs).dropWhile (· = '\n')
      let body ← (if lineEnd < utf8Len rest then sliceFrom rest (lineEnd + 1) else some [])
      return .inl (some (frontmatter, body))
    -- Not a line of dashes alone: skip past it and keep searching.
    else return .inr (abs + 1)

/-- The search moves on. -/
theorem closingTurn_later (afterOpen : List Char) (pos pos' : Nat)
    (h : closingTurn afterOpen pos = some (.inr pos')) :
    utf8Len afterOpen + 1 - pos' < utf8Len afterOpen + 1 - pos := by
  unfold closingTurn at h
  obtain ⟨tail, htail, h⟩ := Option.bind_eq_some_iff.mp h
  have hlen := utf8Len_sliceFrom htail
  split at h
  · cases h
  · rename_i rel hrel
    obtain ⟨rest, -, h⟩ := Option.bind_eq_some_iff.mp h
    obtain ⟨line, -, h⟩ := Option.bind_eq_some_iff.mp h
    split at h
    · obtain ⟨before, -, h⟩ := Option.bind_eq_some_iff.mp h
      obtain ⟨body, -, h⟩ := Option.bind_eq_some_iff.mp h
      cases h
    · cases h
      omega

/-- Split a text into frontmatter and body; none is a panic. -/
def splitFrontmatter (content : List Char) : Option (List Char × List Char) := do
  let content := content.dropWhile (· = '\n')
  if "---\n".toList.isPrefixOf content then
    let afterOpen ← sliceFrom content 4
    let found ← loop (closingTurn afterOpen) (fun pos => utf8Len afterOpen + 1 - pos) (closingTurn_later afterOpen) 0
    return found.getD ([], content)
  else return ([], content)

/-! ### `parse_skill_file` -/

structure ActivationExt where
  domains : Option (List String)

/-- `memory_scope` and `output` are parsed and dropped. -/
structure AgentverseExt where
  tools : Option (List String) := none
  maxIterations : Option Nat := none
  activation : Option ActivationExt := none
  hitlTools : Option (List String) := none
  phaseGate : Option Bool := none
  checkpoints : Option (List String) := none

structure SkillFrontmatter where
  name : String
  description : String
  version : Option String
  tags : Option (List String)
  agentverse : Option AgentverseExt

/-- `Skill` as it is parsed, with the fields that only the files know. -/
structure SkillFile extends Skill where
  version : String
  tags : List String
  activationDomains : List String
  deriving DecidableEq

/-- `SkillError::Parse`. -/
structure SkillParseError where
  path : String
  message : String
  deriving DecidableEq

/-- `s.replace("\r\n", "\n")`. -/
def replaceCrlf : List Char → List Char
  | [] => []
  | '\r' :: '\n' :: cs => '\n' :: replaceCrlf cs
  | c :: cs => c :: replaceCrlf cs

/-- Normalize Windows line endings. -/
def normalizeCrlf (content : List Char) : List Char :=
  if (Utf8.find "\r\n".toList content).isSome then replaceCrlf content else content

/-- Parse a skill file. `yaml` is the parser of the frontmatter, with the texts of its errors. -/
def parseSkillFile (yaml : String → Except String SkillFrontmatter) (path content : String) :
    Option (Except SkillParseError SkillFile) := do
  let (frontmatterSrc, body) ← splitFrontmatter (normalizeCrlf content.toList)
  if frontmatterSrc.isEmpty then
    return .error ⟨path, "missing YAML frontmatter (expected --- delimiters)"⟩
  else
    match yaml (String.ofList frontmatterSrc) with
    | .error e => return .error ⟨path, e⟩
    | .ok fm =>
      let avs := fm.agentverse.getD {}
      return .ok {
        id := fm.name
        version := fm.version.getD "0.1.0"
        description := fm.description
        tags := fm.tags.getD []
        tools := avs.tools.getD []
        activationDomains := (avs.activation.bind (·.domains)).getD []
        instructions := String.ofList (trim body)
        documents := []
        maxIterations := avs.maxIterations
        hitlTools := avs.hitlTools.getD []
        phaseGate := avs.phaseGate.getD false
        checkpoints := avs.checkpoints.getD [] }

/-! ### Lines -/

variable {ls ls' above below : List (List Char)} {line l p q r pre suf : List Char}

/-- The text of some lines. -/
def textOf (ls : List (List Char)) : List Char := ['\n'].intercalate ls

@[simp] theorem textOf_nil : textOf [] = [] := rfl

@[simp] theorem textOf_singleton (l : List Char) : textOf [l] = l := List.intercalate_singleton

theorem textOf_cons (h : ls ≠ []) (l : List Char) : textOf (l :: ls) = l ++ '\n' :: textOf ls := by
  rw [textOf, List.intercalate_cons_of_ne_nil h, List.append_assoc]
  rfl

@[simp] theorem textOf_splitOn (cs : List Char) : textOf (cs.splitOn '\n') = cs := List.intercalate_splitOn '\n'

theorem textOf_append (h : ls ≠ []) (h' : ls' ≠ []) : textOf (ls ++ ls') = textOf ls ++ '\n' :: textOf ls' := by
  induction ls with
  | nil => exact absurd rfl h
  | cons l ls ih =>
    by_cases hls : ls = []
    · subst hls
      rw [List.singleton_append, textOf_cons h', textOf_singleton]
    · rw [List.cons_append, textOf_cons (by simp [hls]), ih hls, textOf_cons hls, List.append_assoc]
      rfl

theorem prefix_textOf (l : List Char) (ls : List (List Char)) : l <+: textOf (l :: ls) := by
  by_cases hls : ls = []
  · rw [hls, textOf_singleton]
  · exact ⟨_, (textOf_cons hls l).symm⟩

/-- Lines but the first one follow a newline. -/
theorem newline_before (h : l ∈ (p.splitOn '\n').tail) : ∃ x y, p = x ++ '\n' :: l ++ y := by
  obtain ⟨first, later, hlines⟩ := List.exists_cons_of_ne_nil (List.splitOn_ne_nil '\n' p)
  rw [hlines, List.tail_cons] at h
  obtain ⟨above, below, rfl⟩ := List.append_of_mem h
  have htext : p = textOf (first :: above) ++ '\n' :: textOf (l :: below) := by
    rw [← textOf_append (by simp) (by simp), List.cons_append, ← hlines, textOf_splitOn]
  obtain ⟨y, hy⟩ := prefix_textOf l below
  exact ⟨textOf (first :: above), y, by rw [htext, ← hy, List.append_assoc, List.cons_append]⟩

/-- A line of dashes and whitespace. -/
def closes (line : List Char) : Bool := "---".toList.isPrefixOf line && (line.drop 3).all isWhitespace

/-- The lines above the first one that closes, and the lines below it. -/
def firstClosing : List (List Char) → Option (List (List Char) × List (List Char))
  | [] => none
  | l :: ls => if closes l then some ([], ls) else (firstClosing ls).map fun x => (l :: x.1, x.2)

theorem firstClosing_append (h : ∀ l ∈ ls, closes l = false) (ls' : List (List Char)) :
    firstClosing (ls ++ ls') = (firstClosing ls').map fun x => (ls ++ x.1, x.2) := by
  induction ls with
  | nil => simp
  | cons l ls ih =>
    obtain ⟨hl, hls⟩ := List.forall_mem_cons.mp h
    rw [List.cons_append, firstClosing, if_neg (by simp [hl]), ih hls, Option.map_map]
    rfl

/-- The first line that closes is a line, it closes, and none above it does. -/
theorem firstClosing_eq_some : firstClosing ls = some (above, below) ↔
    ∃ l, ls = above ++ l :: below ∧ closes l = true ∧ ∀ l ∈ above, closes l = false := by
  constructor
  · intro h
    induction ls generalizing above with
    | nil => cases h
    | cons l ls ih =>
      unfold firstClosing at h
      split at h
      · rename_i hl
        cases h
        exact ⟨l, rfl, hl, List.forall_mem_nil _⟩
      · rename_i hl
        obtain ⟨⟨above', below'⟩, hrest, hx⟩ := Option.map_eq_some_iff.mp h
        cases hx
        obtain ⟨l', rfl, hl', habove⟩ := ih hrest
        exact ⟨l', rfl, hl', List.forall_mem_cons.mpr ⟨by simpa using hl, habove⟩⟩
  · rintro ⟨l, rfl, hl, habove⟩
    rw [firstClosing_append habove, firstClosing, if_pos hl]
    simp

theorem firstClosing_eq_none : firstClosing ls = none ↔ ∀ l ∈ ls, closes l = false := by
  induction ls with
  | nil => simp [firstClosing]
  | cons l ls ih =>
    by_cases hl : closes l
    · simp [firstClosing, hl]
    · simp [firstClosing, hl, ih]

theorem not_closes (h : ¬ "---".toList <+: l) : closes l = false := by
  rw [closes, Bool.and_eq_false_iff]
  exact .inl (by rwa [← Bool.not_eq_true, List.isPrefixOf_iff_prefix])

theorem closes_dashes (l : List Char) : closes ("---".toList ++ l) = (trim l).isEmpty := by
  rw [Bool.eq_iff_iff, List.isEmpty_iff, trim_eq_nil]
  simp [closes, Blank]

/-! ### Sections -/

/-- The lines of a text behind its leading newlines. -/
def fileLines (content : List Char) : List (List Char) := (content.dropWhile (· = '\n')).splitOn '\n'

/-- The frontmatter and the body of a text: its first line is dashes, and the body starts below the first later line
that closes. -/
def sections (content : List Char) : Option (List Char × List Char) :=
  match fileLines content with
  | [] => none
  | opening :: later =>
    if opening = "---".toList then
      (firstClosing later).map fun x => ((textOf x.1).dropWhile (· = '\n'), textOf x.2)
    else none

theorem sections_of_lines {content : List Char} (h : fileLines content = "---".toList :: (above ++ line :: below))
    (hline : closes line = true) (habove : ∀ l ∈ above, closes l = false) :
    sections content = some ((textOf above).dropWhile (· = '\n'), textOf below) := by
  have hfirst : firstClosing (above ++ line :: below) = some (above, below) :=
    firstClosing_eq_some.mpr ⟨line, rfl, hline, habove⟩
  simp only [sections, h, if_true, hfirst, Option.map_some]

theorem sections_eq_none {content : List Char}
    (h : ∀ later, fileLines content = "---".toList :: later → ∀ l ∈ later, closes l = false) : sections content = none := by
  unfold sections
  split
  · rfl
  · rename_i opening later hlines
    split
    · rename_i hopening
      rw [firstClosing_eq_none.mpr (h later (hopening ▸ hlines))]
      rfl
    · rfl

/-- What the search finds at the end of `pre`: the first line of `suf` has begun in `pre`, and does not close. -/
def closingFrom (pre suf : List Char) : Option (List Char × List Char) :=
  match suf.splitOn '\n' with
  | [] => none
  | line :: later =>
    (firstClosing later).map fun x => ((pre ++ textOf (line :: x.1)).dropWhile (· = '\n'), textOf x.2)

theorem closingFrom_none (h : ∀ l ∈ (suf.splitOn '\n').tail, closes l = false) : closingFrom pre suf = none := by
  unfold closingFrom
  split
  · rfl
  · rename_i line later hlines
    rw [hlines, List.tail_cons] at h
    rw [firstClosing_eq_none.mpr h]
    rfl

/-- Lines that do not close are passed. -/
theorem closingFrom_append (h : ∀ l ∈ (p.splitOn '\n').tail, closes l = false) (hq : q.splitOn '\n' = line :: ls) :
    closingFrom pre (p ++ '\n' :: q) =
      if closes line then some ((pre ++ p).dropWhile (· = '\n'), textOf ls) else closingFrom (pre ++ p ++ ['\n']) q := by
  obtain ⟨first, later, hp⟩ := List.exists_cons_of_ne_nil (List.splitOn_ne_nil '\n' p)
  rw [hp, List.tail_cons] at h
  have htext : p = textOf (first :: later) := by rw [← hp, textOf_splitOn]
  simp only [closingFrom, List.splitOn_append_cons_self, hp, hq, List.cons_append, firstClosing_append h, firstClosing]
  split
  · simp [htext]
  · rw [Option.map_map, Option.map_map]
    congr 1
    funext x
    have hlines : textOf (first :: (later ++ line :: x.1)) = p ++ '\n' :: textOf (line :: x.1) := by
      rw [htext, ← textOf_append (by simp) (by simp), List.cons_append]
    simp [hlines]

/-! ### The search -/

/-- Where a line ends, and what is below it. -/
theorem lineEnd_eq (h : r.splitOn '\n' = line :: ls) :
    sliceTo r ((Utf8.find ['\n'] r).getD (utf8Len r)) = some line ∧
      (if (Utf8.find ['\n'] r).getD (utf8Len r) < utf8Len r then
        sliceFrom r ((Utf8.find ['\n'] r).getD (utf8Len r) + 1) else some []) = some (textOf ls) := by
  cases hsplit : splitOnce ['\n'] r with
  | none =>
    have hnot : '\n' ∉ r := by
      intro hmem
      obtain ⟨x, y, rfl⟩ := List.append_of_mem hmem
      exact splitOnce_eq_none.mp hsplit ⟨x, y, by simp⟩
    have hall : sliceTo r (utf8Len r) = some r := by simpa using sliceTo_append r []
    rw [List.splitOn_eq_singleton hnot] at h
    obtain ⟨rfl, rfl⟩ := List.cons_eq_cons.mp h
    simp [Utf8.find, hsplit, hall]
  | some x =>
    obtain ⟨l, below⟩ := x
    obtain ⟨rfl, hl⟩ := splitOnce_char hsplit
    rw [List.splitOn_append_cons_self_of_not_mem hl] at h
    obtain ⟨rfl, rfl⟩ := List.cons_eq_cons.mp h
    have hsize : '\n'.utf8Size = 1 := by decide
    have hbelow : sliceFrom (l ++ '\n' :: below) (utf8Len l + 1) = some below := by
      have := sliceFrom_append (l ++ ['\n']) below
      simpa [hsize] using this
    have hlt : utf8Len l < utf8Len (l ++ '\n' :: below) := by
      rw [String.utf8Len_append, String.utf8Len_cons]
      omega
    have hend : (Utf8.find ['\n'] (l ++ '\n' :: below)).getD (utf8Len (l ++ '\n' :: below)) = utf8Len l := by
      rw [Utf8.find, hsplit]
      rfl
    rw [hend, if_pos hlt, hbelow, sliceTo_append, textOf_splitOn]
    exact ⟨rfl, rfl⟩

/-- What a turn does at the end of `pre`. -/
theorem closingTurn_eq (pre suf : List Char) (h : splitOnce "\n---".toList suf = some (p, r))
    (hr : r.splitOn '\n' = line :: ls) : closingTurn (pre ++ suf) (utf8Len pre) = some (
      if (trim line).isEmpty then .inl (some ((pre ++ p).dropWhile (· = '\n'), textOf ls))
      else .inr (utf8Len (pre ++ p ++ ['\n']))) := by
  obtain ⟨rfl, -⟩ := splitOnce_eq_some h
  obtain ⟨hline, hbody⟩ := lineEnd_eq hr
  have hmarker : utf8Len "\n---".toList = 4 := by decide
  have hsize : utf8Len ['\n'] = 1 := by decide
  have hrest : sliceFrom (pre ++ (p ++ "\n---".toList ++ r)) (utf8Len pre + utf8Len p + 4) = some r := by
    have := sliceFrom_append (pre ++ p ++ "\n---".toList) r
    simpa only [String.utf8Len_append, hmarker, List.append_assoc, Nat.add_assoc] using this
  have hbefore : sliceTo (pre ++ (p ++ "\n---".toList ++ r)) (utf8Len pre + utf8Len p) = some (pre ++ p) := by
    have := sliceTo_append (pre ++ p) ("\n---".toList ++ r)
    simpa only [String.utf8Len_append, List.append_assoc] using this
  have hfind : Utf8.find "\n---".toList (p ++ "\n---".toList ++ r) = some (utf8Len p) := by rw [Utf8.find, h]; rfl
  simp only [closingTurn, sliceFrom_append, hfind, hrest, hline, hbefore, hbody, Option.bind_eq_bind, Option.bind_some]
  split
  · rfl
  · rw [String.utf8Len_append, String.utf8Len_append, hsize]
    rfl

/-- The search stands at the end of `pre`, and nothing is found above. -/
structure SearchAt (afterOpen : List Char) (pos : Nat) (pre suf : List Char) : Prop where
  text : afterOpen = pre ++ suf
  pos : pos = utf8Len pre
  found : closingFrom [] afterOpen = closingFrom pre suf

/-- The search sees the lines that close, but the one that it starts in. -/
theorem search_eq (afterOpen : List Char) :
    loop (closingTurn afterOpen) (fun pos => utf8Len afterOpen + 1 - pos) (closingTurn_later afterOpen) 0 =
      some (closingFrom [] afterOpen) := by
  -- A turn passes the lines before the next `\n---`, none of which closes, and tests the line after it.
  have hbody : ∀ pos, (∃ pre suf, SearchAt afterOpen pos pre suf) →
      (∃ found, closingTurn afterOpen pos = some (.inl found) ∧ found = closingFrom [] afterOpen) ∨
        ∃ pos', closingTurn afterOpen pos = some (.inr pos') ∧ ∃ pre suf, SearchAt afterOpen pos' pre suf := by
    rintro _ ⟨pre, suf, htext, rfl, hfound⟩
    rw [hfound]
    subst htext
    cases h : splitOnce "\n---".toList suf with
    | none =>
      have hlines : ∀ l ∈ (suf.splitOn '\n').tail, closes l = false := by
        intro l hl
        refine not_closes fun hdashes => splitOnce_eq_none.mp h ?_
        obtain ⟨x, y, rfl⟩ := newline_before hl
        obtain ⟨rest, rfl⟩ := hdashes
        exact ⟨x, rest ++ y, by simp⟩
      refine .inl ⟨none, ?_, (closingFrom_none hlines).symm⟩
      have hfind : Utf8.find "\n---".toList suf = none := by rw [Utf8.find, h]; rfl
      simp only [closingTurn, sliceFrom_append, hfind, Option.bind_eq_bind, Option.bind_some]
      rfl
    | some x =>
      obtain ⟨p, r⟩ := x
      obtain ⟨hsuf, hfirst⟩ := splitOnce_eq_some h
      obtain ⟨line, ls, hr⟩ := List.exists_cons_of_ne_nil (List.splitOn_ne_nil '\n' r)
      have hlines : ∀ l ∈ (p.splitOn '\n').tail, closes l = false := by
        intro l hl
        refine not_closes fun hdashes => ?_
        obtain ⟨x, y, rfl⟩ := newline_before hl
        obtain ⟨rest, rfl⟩ := hdashes
        have := hfirst x (rest ++ y ++ "\n---".toList ++ r) (by simp [hsuf])
        simp at this
      have hq : ("---".toList ++ r).splitOn '\n' = ("---".toList ++ line) :: ls := by
        simp [List.splitOn_cons_eq_if_modifyHead, hr]
      have hpast : suf = p ++ '\n' :: ("---".toList ++ r) := by simp [hsuf]
      have hclosing : closingFrom pre (p ++ '\n' :: ("---".toList ++ r)) = _ := closingFrom_append hlines hq
      rw [← hpast, closes_dashes] at hclosing
      rw [closingTurn_eq pre suf h hr, hclosing]
      by_cases hline : (trim line).isEmpty
      · exact .inl ⟨_, by rw [if_pos hline], by rw [if_pos hline]⟩
      · rw [if_neg hline] at hclosing ⊢
        exact .inr ⟨_, rfl, pre ++ p ++ ['\n'], "---".toList ++ r, by simp [hpast], rfl, hfound.trans hclosing⟩
  obtain ⟨found, hfound, rfl⟩ := loop_rule hbody ⟨[], afterOpen, rfl, rfl, rfl⟩
  exact hfound

/-- What is split, said of the lines. -/
theorem splitFrontmatter_eq (content : List Char) : splitFrontmatter content = some (
    if "---\n".toList.isPrefixOf (content.dropWhile (· = '\n')) then
      (closingFrom [] ((content.dropWhile (· = '\n')).drop 4)).getD ([], content.dropWhile (· = '\n'))
    else ([], content.dropWhile (· = '\n'))) := by
  unfold splitFrontmatter
  dsimp only
  split
  · rename_i h
    obtain ⟨afterOpen, hafter⟩ := List.isPrefixOf_iff_prefix.mp h
    have hcut : sliceFrom ("---\n".toList ++ afterOpen) 4 = some afterOpen := sliceFrom_append "---\n".toList afterOpen
    have hdrop : ("---\n".toList ++ afterOpen).drop 4 = afterOpen := rfl
    rw [← hafter, hcut, hdrop]
    simp [search_eq]
  · rfl

/-- No file makes the parser panic. -/
theorem parseSkillFile_total (yaml : String → Except String SkillFrontmatter) (path content : String) :
    ∃ r, parseSkillFile yaml path content = some r := by
  obtain ⟨⟨frontmatterSrc, body⟩, hparts⟩ : ∃ parts, splitFrontmatter (normalizeCrlf content.toList) = some parts :=
    ⟨_, splitFrontmatter_eq _⟩
  simp only [parseSkillFile, hparts, Option.bind_eq_bind, Option.bind_some]
  split
  · exact ⟨_, rfl⟩
  · split <;> exact ⟨_, rfl⟩

/-! ### Line endings -/

/-- The version of a text with Windows line endings: a newline that has no carriage return gets one. -/
def toCrlf : List Char → List Char
  | [] => []
  | '\r' :: '\n' :: cs => '\r' :: '\n' :: toCrlf cs
  | '\n' :: cs => '\r' :: '\n' :: toCrlf cs
  | c :: cs => c :: toCrlf cs

/-- A text without carriage returns gets one at each newline. -/
theorem toCrlf_eq {cs : List Char} (h : '\r' ∉ cs) :
    toCrlf cs = cs.flatMap fun c => if c = '\n' then ['\r', '\n'] else [c] := by
  fun_induction toCrlf cs with
  | case1 => rfl
  | case2 cs ih => simp at h
  | case3 cs ih => rw [ih fun hmem => h (List.mem_cons_of_mem _ hmem)]; rfl
  | case4 c cs hcr hlf ih =>
    rw [ih fun hmem => h (List.mem_cons_of_mem _ hmem), List.flatMap_cons, if_neg hlf]
    rfl

theorem head_toCrlf (cs : List Char) : (toCrlf cs).head? ≠ some '\n' := by
  fun_cases toCrlf cs with
  | case1 => simp
  | case2 cs => simp
  | case3 cs => simp
  | case4 c cs hcr hlf => simpa using hlf

theorem replaceCrlf_cons {c : Char} {cs : List Char} (h : c = '\r' → cs.head? ≠ some '\n') :
    replaceCrlf (c :: cs) = c :: replaceCrlf cs := by
  rw [replaceCrlf.eq_def]
  split
  · rename_i heq
    cases heq
  · rename_i heq
    cases heq
    exact absurd rfl (h rfl)
  · rename_i heq
    cases heq
    rfl

/-- A text and its version with Windows line endings are normalized alike. -/
theorem replaceCrlf_toCrlf (cs : List Char) : replaceCrlf (toCrlf cs) = replaceCrlf cs := by
  fun_induction toCrlf cs with
  | case1 => rfl
  | case2 cs ih => rw [replaceCrlf, replaceCrlf, ih]
  | case3 cs ih =>
    rw [replaceCrlf, ih, replaceCrlf_cons fun hc => by cases hc]
  | case4 c cs hcr hlf ih =>
    have hnot : c = '\r' → cs.head? ≠ some '\n' := by
      rintro rfl hhead
      obtain ⟨cs', rfl⟩ := List.head?_eq_some_iff.mp hhead
      exact hcr cs' rfl rfl
    rw [replaceCrlf_cons fun _ => head_toCrlf cs, replaceCrlf_cons hnot, ih]

theorem normalizeCrlf_eq (content : List Char) : normalizeCrlf content = replaceCrlf content := by
  unfold normalizeCrlf
  split
  · rfl
  · rename_i h
    have hnot : ¬ "\r\n".toList <:+: content := by
      rw [← splitOnce_eq_none]
      simpa [Utf8.find] using h
    clear h
    induction content with
    | nil => rfl
    | cons c cs ih =>
      have hhead : c = '\r' → cs.head? ≠ some '\n' := by
        rintro rfl hhead
        obtain ⟨cs', rfl⟩ := List.head?_eq_some_iff.mp hhead
        exact hnot ⟨[], cs', rfl⟩
      rw [replaceCrlf_cons hhead, ← ih fun h => hnot (h.trans (List.suffix_cons c cs).isInfix)]

/-! ### Exact splitting -/

/-- The frontmatter of a text is split off exactly. -/
structure SplitsExactly (content : String) : Prop where
  /-- The search ends, and cuts the text between its characters only. -/
  total : ∃ parts, splitFrontmatter content.toList = some parts
  /-- The first line that closes ends the frontmatter, and what is below it is the body. -/
  delimited : ∀ above line below, fileLines content.toList = "---".toList :: (above ++ line :: below) →
    closes line = true → (∀ l ∈ above, closes l = false) →
    splitFrontmatter content.toList = some ((textOf above).dropWhile (· = '\n'), textOf below)
  undelimited : (∀ later, fileLines content.toList = "---".toList :: later → ∀ l ∈ later, closes l = false) →
    ∃ body, splitFrontmatter content.toList = some ([], body)
  /-- The text and its version with Windows line endings parse alike. -/
  crlf : ∀ (yaml : String → Except String SkillFrontmatter) (path : String),
    parseSkillFile yaml path (String.ofList (toCrlf content.toList)) = parseSkillFile yaml path content

/-- The line directly behind the opening line closes. -/
def closesAtOnce (content : String) : Bool :=
  match (content.toList.dropWhile (· = '\n')).splitOn '\n' with
  | opening :: line :: _ => opening = "---".toList && closes line
  | _ => false

theorem splitOn_opened (rest : List Char) :
    ("---\n".toList ++ rest).splitOn '\n' = "---".toList :: rest.splitOn '\n' := by
  have hdashes : '\n' ∉ "---".toList := by decide
  exact List.splitOn_append_cons_self_of_not_mem hdashes rest

theorem opened_of_splitOn {content : List Char} (h : content.splitOn '\n' = "---".toList :: line :: ls) :
    "---\n".toList <+: content := by
  rw [← textOf_splitOn content, h, textOf_cons (by simp)]
  exact ⟨textOf (line :: ls), rfl⟩

/-- A text that is not opened has no sections. -/
theorem sections_of_not_opened {content : List Char} (h : ¬ "---\n".toList <+: content.dropWhile (· = '\n')) :
    sections content = none := by
  unfold sections
  split
  · rfl
  · rename_i opening later hlines
    split
    · rename_i hopening
      subst hopening
      cases later with
      | nil => rfl
      | cons line later => exact absurd (opened_of_splitOn hlines) h
    · rfl

theorem closesAtOnce_of_not_opened {content : String}
    (h : ¬ "---\n".toList <+: content.toList.dropWhile (· = '\n')) : closesAtOnce content = false := by
  unfold closesAtOnce
  split
  · rename_i opening line later hlines
    rw [Bool.and_eq_false_iff, decide_eq_false_iff_not]
    refine .inl fun hopening => h (opened_of_splitOn (hopening ▸ hlines))
  · rfl

/-- The sections of a text that is opened are those between its lines. -/
theorem sections_of_opened {content rest : List Char} (h : content.dropWhile (· = '\n') = "---\n".toList ++ rest) :
    sections content =
      (firstClosing (rest.splitOn '\n')).map fun x => ((textOf x.1).dropWhile (· = '\n'), textOf x.2) := by
  rw [sections, fileLines, h, splitOn_opened]
  exact if_pos rfl

/-- Where the first line closes, the search finds other text in front of a body, or no body. -/
theorem closingFrom_of_closes {rest : List Char} (hlines : rest.splitOn '\n' = line :: ls) (hline : closes line = true) :
    (closingFrom [] rest).getD ([], "---\n".toList ++ rest) ≠ ([], textOf ls) := by
  have hrest : textOf (line :: ls) = rest := by rw [← hlines, textOf_splitOn]
  simp only [closingFrom, hlines]
  intro h
  cases hfound : firstClosing ls with
  | none =>
    rw [hfound] at h
    have hbody : "---\n".toList ++ rest = textOf ls := congrArg Prod.snd h
    by_cases hls : ls = []
    · rw [hls] at hbody
      cases hbody
    · have hlen := congrArg List.length hbody
      rw [← hrest, textOf_cons hls] at hlen
      simp only [List.length_append, List.length_cons] at hlen
      omega
  | some x =>
    rw [hfound] at h
    have hfrontmatter : (textOf (line :: x.1)).dropWhile (· = '\n') = [] := congrArg Prod.fst h
    obtain ⟨w, rfl⟩ := List.isPrefixOf_iff_prefix.mp (Bool.and_eq_true_iff.mp hline).1
    obtain ⟨y, hy⟩ := prefix_textOf ("---".toList ++ w) x.1
    rw [← hy] at hfrontmatter
    cases hfrontmatter

/-- Frontmatter is split off exactly if the line directly behind the opening line does not close. -/
theorem splitFrontmatter_exact (content : String) : SplitsExactly content ↔ closesAtOnce content = false := by
  have hcrlf : ∀ (yaml : String → Except String SkillFrontmatter) (path : String),
      parseSkillFile yaml path (String.ofList (toCrlf content.toList)) = parseSkillFile yaml path content := by
    intro yaml path
    simp only [parseSkillFile, String.toList_ofList, normalizeCrlf_eq, replaceCrlf_toCrlf]
  have hsplit := splitFrontmatter_eq content.toList
  by_cases hopened : "---\n".toList <+: content.toList.dropWhile (· = '\n')
  · obtain ⟨rest, hrest⟩ := hopened
    obtain ⟨line, later, hlines⟩ := List.exists_cons_of_ne_nil (List.splitOn_ne_nil '\n' rest)
    have hsections := sections_of_opened hrest.symm
    have honce : closesAtOnce content = closes line := by
      rw [closesAtOnce, ← hrest, splitOn_opened, hlines]
      simp
    have hdrop : ("---\n".toList ++ rest).drop 4 = rest := rfl
    have hprefix : "---\n".toList.isPrefixOf ("---\n".toList ++ rest) = true :=
      List.isPrefixOf_iff_prefix.mpr (List.prefix_append _ _)
    rw [← hrest, if_pos hprefix, hdrop] at hsplit
    rw [hlines, firstClosing] at hsections
    rw [honce]
    by_cases hline : closes line = true
    · -- The search does not see the line, and returns other text in front of what is behind the line.
      refine iff_of_false (fun h => ?_) (by simp [hline])
      have hfile : fileLines content.toList = "---".toList :: ([] ++ line :: later) := by
        rw [fileLines, ← hrest, splitOn_opened, hlines]
        rfl
      have hparts := h.delimited [] line later hfile hline (List.forall_mem_nil _)
      exact closingFrom_of_closes hlines hline (Option.some.inj (hsplit.symm.trans hparts))
    · have hfound : closingFrom [] rest = sections content.toList := by
        rw [hsections, if_neg hline, Option.map_map, closingFrom, hlines]
        rfl
      rw [hfound] at hsplit
      refine iff_of_true ⟨⟨_, hsplit⟩, fun above line' below hl hcloses habove => ?_, fun hnone => ?_, hcrlf⟩
        (by simpa using hline)
      · rw [hsplit, sections_of_lines hl hcloses habove]
        rfl
      · rw [sections_eq_none hnone] at hsplit
        exact ⟨_, hsplit⟩
  · rw [if_neg (by rwa [List.isPrefixOf_iff_prefix])] at hsplit
    refine iff_of_true ⟨⟨_, hsplit⟩, fun above line below hl hcloses habove => ?_, fun _ => ⟨_, hsplit⟩, hcrlf⟩
      (closesAtOnce_of_not_opened hopened)
    have hnone := sections_of_not_opened hopened
    rw [sections_of_lines hl hcloses habove] at hnone
    cases hnone

/-- A closing line directly behind the opening line is taken for frontmatter, up to the next closing line. -/
theorem second_line_unseen : ¬ SplitsExactly "---\n---\nname: a\ndescription: b\n---\nc" := by
  intro h
  have hparts := h.delimited [] "---".toList ["name: a".toList, "description: b".toList, "---".toList, "c".toList]
    (by decide) (by decide) (by decide)
  rw [splitFrontmatter_eq] at hparts
  exact absurd hparts (by decide)

end AgentVerse
