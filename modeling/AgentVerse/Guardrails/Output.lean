import AgentVerse.Core.Types
import AgentVerse.Effects.Pattern

/-!
# The output guardrail

`check_output` looks for three patterns in a text. A number or an address in parts put together with line breaks is in one
of the parts, but for card numbers, in which a line break may stand for a blank: so fewer parts of a text that passed the
check have none but such a card number (`Clean.intercalate`).
-/

namespace AgentVerse

open Effects Pattern

/-- `\\d` and `\\w` of the `regex` crate. Below 128 they are as in ASCII. -/
structure CharClasses where
  digit : Char → Bool
  word : Char → Bool
  digit_ascii : ∀ c, c.toNat < 128 → digit c = c.isDigit
  word_ascii : ∀ c, c.toNat < 128 → word c = (c.isAlphanum || c = '_')

def CharClasses.ascii : CharClasses :=
  ⟨Char.isDigit, fun c => c.isAlphanum || c = '_', fun _ _ => rfl, fun _ _ => rfl⟩

namespace OutputGuard

variable (cl : CharClasses)

def digits (n : Nat) : Pattern Char := List.replicate n (.one cl.digit)

/-- `\b\d{3}-\d{2}-\d{4}\b`. -/
def ssn : Pattern Char :=
  [.edge] ++ digits cl 3 ++ [.one (· = '-')] ++ digits cl 2 ++ [.one (· = '-')] ++ digits cl 4 ++ [.edge]

/-- `[\s-]`. -/
def cardGap (c : Char) : Bool := isWhitespace c || c = '-'

/-- `\b\d{4}[\s-]\d{4}[\s-]\d{4}[\s-]\d{4}\b`. -/
def creditCard : Pattern Char :=
  [.edge] ++ digits cl 4 ++ [.one cardGap] ++ digits cl 4 ++ [.one cardGap] ++ digits cl 4 ++ [.one cardGap] ++
    digits cl 4 ++ [.edge]

/-- `[a-zA-Z0-9.-]`. -/
def hostChar (c : Char) : Bool := c.isAlphanum || c = '.' || c = '-'

/-- `[a-zA-Z0-9._%+-]+@[a-zA-Z0-9.-]+\.[a-zA-Z]{2,}`. -/
def email : Pattern Char :=
  [.many fun c => hostChar c || c = '_' || c = '%' || c = '+', .one (· = '@'), .many hostChar, .one (· = '.'),
    .one Char.isAlpha, .many Char.isAlpha]

/-- `PII_PATTERNS`. -/
def piiPatterns : List (Pattern Char × String) := [(ssn cl, "SSN"), (creditCard cl, "Credit Card"), (email, "Email")]

/-- The message of `check_output` where it rejects a text. -/
def checkOutput (output : String) : Option String :=
  ((piiPatterns cl).find? fun e => found cl.word e.1 output.toList).map fun e =>
    "PII detected: " ++ e.2 ++ " — output filtered"

/-- A pattern is found in a text. -/
abbrev In (ps : Pattern Char) (text : String) : Prop := found cl.word ps text.toList = true

theorem checkOutput_eq_none {text : String} :
    checkOutput cl text = none ↔ ¬ In cl (ssn cl) text ∧ ¬ In cl (creditCard cl) text ∧ ¬ In cl email text := by
  simp [checkOutput, piiPatterns]

theorem newline_no_word : cl.word '\n' = false := cl.word_ascii '\n' (by decide)

theorem newline_no_digit : cl.digit '\n' = false := cl.digit_ascii '\n' (by decide)

theorem digits_avoid (n : Nat) : Avoids '\n' (digits cl n) := by
  rintro p (h | h)
  · obtain rfl := Piece.one.inj (List.eq_of_mem_replicate h)
    exact newline_no_digit cl
  · cases List.eq_of_mem_replicate h

theorem ssn_avoids : Avoids '\n' (ssn cl) := by
  have hdash : Avoids '\n' [.one (· = '-')] := avoids_one (by decide)
  unfold ssn
  exact (((((avoids_edge.append (digits_avoid cl 3)).append hdash).append (digits_avoid cl 2)).append hdash).append
    (digits_avoid cl 4)).append avoids_edge

theorem email_avoids : Avoids '\n' email := by
  intro p hp
  simp only [email, List.mem_cons, List.not_mem_nil, or_false, Piece.one.injEq, Piece.many.injEq, reduceCtorEq,
    false_or] at hp
  rcases hp with (rfl | rfl | rfl) | rfl | rfl | rfl <;> decide

/-! ### Texts put together from blocks -/

/-- A text with no number and no address but for card numbers over several lines. -/
structure Clean (text : String) : Prop where
  no_ssn : ¬ In cl (ssn cl) text
  no_email : ¬ In cl email text
  card_lines : ∀ pre mid post, text.toList = pre ++ mid ++ post →
    Matches cl.word (creditCard cl) pre.getLast? mid post.head? → '\n' ∈ mid

variable {cl}

theorem clean_iff {text : String} : Clean cl text ↔
    ¬ Inside cl.word '\n' (ssn cl) text.toList ∧ ¬ Inside cl.word '\n' email text.toList ∧
      ¬ Inside cl.word '\n' (creditCard cl) text.toList := by
  constructor
  · rintro ⟨hssn, hemail, hcard⟩
    refine ⟨fun h => hssn h.found, fun h => hemail h.found, ?_⟩
    rintro ⟨pre, mid, post, htext, hmid, hm⟩
    exact hmid (hcard pre mid post htext hm)
  · rintro ⟨hssn, hemail, hcard⟩
    refine ⟨fun h => hssn ((ssn_avoids cl).found_iff.mp h), fun h => hemail (email_avoids.found_iff.mp h), ?_⟩
    intro pre mid post htext hm
    by_contra hmid
    exact hcard ⟨pre, mid, post, htext, hmid, hm⟩

theorem clean_of_check {text : String} (h : checkOutput cl text = none) : Clean cl text := by
  obtain ⟨hssn, hcard, hemail⟩ := (checkOutput_eq_none cl).mp h
  exact clean_iff.mpr ⟨fun h => hssn h.found, fun h => hemail h.found, fun h => hcard h.found⟩

/-- What is in some of the parts of a clean text is clean when it is put together. -/
theorem Clean.intercalate {parts parts' : List String} (h : Clean cl ("\n".intercalate parts))
    (hsub : parts' ⊆ parts) (hparts : parts' ≠ []) : Clean cl ("\n".intercalate parts') := by
  have hkeep : ∀ ps : Pattern Char, Inside cl.word '\n' ps ("\n".intercalate parts').toList →
      Inside cl.word '\n' ps ("\n".intercalate parts).toList := by
    intro ps hin
    rw [String.toList_intercalate] at hin ⊢
    obtain ⟨part, hmem, hin⟩ := (inside_intercalate (newline_no_word cl) (by simpa using hparts)).mp hin
    obtain ⟨text, htext, rfl⟩ := List.mem_map.mp hmem
    have hne : parts.map String.toList ≠ [] := List.ne_nil_of_mem (List.mem_map_of_mem (hsub htext))
    exact (inside_intercalate (newline_no_word cl) hne).mpr ⟨_, List.mem_map_of_mem (hsub htext), hin⟩
  rw [clean_iff] at h ⊢
  exact ⟨fun hin => h.1 (hkeep _ hin), fun hin => h.2.1 (hkeep _ hin), fun hin => h.2.2 (hkeep _ hin)⟩

end OutputGuard

end AgentVerse
