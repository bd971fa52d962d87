import AgentVerse.Core.Text

/-!
# Characters and words

Case and class of characters are parameters. A text is split into words of alphanumeric characters, or at whitespace,
and may be trimmed at both ends (`trimMatches_eq_iff`).
-/

namespace AgentVerse

/-- Case and class of characters. -/
structure Unicode where
  toLowercase : String → String
  isAlphanumeric : Char → Bool

/-- The part of Unicode that fits in seven bits. -/
def Unicode.ascii : Unicode := ⟨fun s => String.ofList (s.toList.map Char.toLower), Char.isAlphanum⟩

/-- The words between characters that are not alphanumeric. -/
def Unicode.words (u : Unicode) (text : String) : List String :=
  ((text.toList.splitOnP fun c => !u.isAlphanumeric c).filter fun s => !s.isEmpty).map String.ofList

def splitWhitespace (cs : List Char) : List (List Char) := (cs.splitOnP isWhitespace).filter fun s => !s.isEmpty

def trimMatches (p : Char → Bool) (cs : List Char) : List Char := (cs.dropWhile p).rdropWhile p

variable {p : Char → Bool} {cs mid : List Char}

/-- A text that keeps both of its ends when it is trimmed. -/
def Bare (p : Char → Bool) (cs : List Char) : Prop := (∀ c ∈ cs.head?, p c = false) ∧ ∀ c ∈ cs.getLast?, p c = false

instance decidableBare (p : Char → Bool) (cs : List Char) : Decidable (Bare p cs) := inferInstanceAs (Decidable (_ ∧ _))

theorem dropWhile_of_head (h : ∀ c ∈ cs.head?, p c = false) : cs.dropWhile p = cs := by
  cases cs with
  | nil => rfl
  | cons c cs => exact List.dropWhile_cons_of_neg (by simp [h c rfl])

theorem head_dropWhile : ∀ c ∈ (cs.dropWhile p).head?, p c = false := by
  intro c hc
  cases hcs : cs.dropWhile p with
  | nil => rw [hcs] at hc; cases hc
  | cons c' rest =>
    rw [hcs] at hc
    have hhead := List.head?_dropWhile_not p cs
    rw [hcs] at hhead
    cases hc
    simpa using hhead

theorem rdropWhile_append (post : List Char) (hpost : ∀ c ∈ post, p c = true) :
    (mid ++ post).rdropWhile p = mid.rdropWhile p := by
  unfold List.rdropWhile
  rw [List.reverse_append, List.dropWhile_append_of_pos fun c hc => hpost c (List.mem_reverse.mp hc)]

/-- What is left after trimming stands between trimmed characters and is bare. -/
theorem trimMatches_eq_iff : trimMatches p cs = mid ↔
    Bare p mid ∧ ∃ pre post, (∀ c ∈ pre, p c = true) ∧ (∀ c ∈ post, p c = true) ∧ cs = pre ++ mid ++ post := by
  constructor
  · rintro rfl
    obtain ⟨post, hpost⟩ : ∃ post, (trimMatches p cs) ++ post = cs.dropWhile p := List.rdropWhile_prefix p _
    refine ⟨⟨fun c hc => ?_, fun c hc => ?_⟩, cs.takeWhile p, (cs.dropWhile p).rtakeWhile p,
      fun c hc => List.mem_takeWhile_imp hc, fun c hc => List.mem_rtakeWhile_imp hc, ?_⟩
    · refine @head_dropWhile p cs c ?_
      rw [← hpost, List.head?_append, hc]
      rfl
    · have hne : trimMatches p cs ≠ [] := by
        intro hnil
        rw [hnil] at hc
        cases hc
      have hlast := List.rdropWhile_last_not p (cs.dropWhile p) hne
      rw [List.getLast?_eq_some_getLast hne] at hc
      cases hc
      exact Bool.eq_false_iff.mpr hlast
    · rw [List.append_assoc, trimMatches, List.rdropWhile_append_rtakeWhile, List.takeWhile_append_dropWhile]
  · rintro ⟨⟨hhead, hlast⟩, pre, post, hpre, hpost, rfl⟩
    have hmid : mid.rdropWhile p = mid := by
      unfold List.rdropWhile
      rw [dropWhile_of_head (by rwa [List.head?_reverse]), List.reverse_reverse]
    unfold trimMatches
    rw [List.append_assoc, List.dropWhile_append_of_pos hpre]
    cases mid with
    | nil =>
      rw [List.nil_append, List.dropWhile_eq_nil_iff.mpr hpost]
      rfl
    | cons c mid =>
      rw [dropWhile_of_head (by simpa using hhead), rdropWhile_append post hpost, hmid]

end AgentVerse
