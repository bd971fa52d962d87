import Mathlib.Data.List.Basic
import Mathlib.Data.List.Infix

/-!
# Patterns

A pattern is a sequence of letters, of runs of letters, and of edges of words. It is found in a text if some part of the
text matches it (`found_iff`). A letter that is in no word separates a text: what matches without the separator stands
on one side of it (`inside_append`, `inside_intercalate`).
-/

namespace Effects

variable {α : Type}

/-- A letter, one letter or more, or the place where a word begins or ends. -/
inductive Piece (α : Type) where
  | one (p : α → Bool)
  | many (p : α → Bool)
  | edge

abbrev Pattern (α : Type) : Type := List (Piece α)

namespace Pattern

variable (word : α → Bool)

/-- One of the letters on the two sides is in a word, and the other one is not. -/
def atEdge (before after : Option α) : Bool := before.any word != after.any word

/-- One letter or more, and then the rest. -/
def manyThen (p : α → Bool) (rest : Option α → List α → Bool) : List α → Bool
  | [] => false
  | c :: s => p c && (rest (some c) s || manyThen p rest s)

/-- The pattern matches at the start of a text, behind the letter `before`. -/
def matchesAt : Pattern α → Option α → List α → Bool
  | [], _, _ => true
  | .edge :: ps, before, s => atEdge word before s.head? && matchesAt ps before s
  | .one p :: ps, _, s =>
    match s with
    | [] => false
    | c :: s => p c && matchesAt ps (some c) s
  | .many p :: ps, _, s => manyThen p (matchesAt ps) s

def search (ps : Pattern α) : Option α → List α → Bool
  | before, [] => matchesAt word ps before []
  | before, c :: s => matchesAt word ps before (c :: s) || search ps (some c) s

/-- The pattern matches somewhere. -/
def found (ps : Pattern α) (s : List α) : Bool := search word ps none s

/-! ### Matches -/

/-- A part of a text, between two letters, matches a pattern. -/
inductive Matches : Pattern α → (before : Option α) → List α → (after : Option α) → Prop where
  | nil {before after : Option α} : Matches [] before [] after
  | edge {ps : Pattern α} {before after : Option α} {s : List α} (h : atEdge word before (s.head?.or after) = true)
      (hrest : Matches ps before s after) : Matches (.edge :: ps) before s after
  | one {p : α → Bool} {ps : Pattern α} {before after : Option α} {c : α} {s : List α} (h : p c = true)
      (hrest : Matches ps (some c) s after) : Matches (.one p :: ps) before (c :: s) after
  | last {p : α → Bool} {ps : Pattern α} {before after : Option α} {c : α} {s : List α} (h : p c = true)
      (hrest : Matches ps (some c) s after) : Matches (.many p :: ps) before (c :: s) after
  | more {p : α → Bool} {ps : Pattern α} {before after : Option α} {c : α} {s : List α} (h : p c = true)
      (hrest : Matches (.many p :: ps) (some c) s after) : Matches (.many p :: ps) before (c :: s) after

variable {word} {ps : Pattern α} {before after : Option α} {s : List α}

theorem head?_append_or (mid post : List α) : (mid ++ post).head? = mid.head?.or post.head? := by
  cases mid <;> rfl

theorem manyThen_iff {p : α → Bool} {rest : Option α → List α → Bool}
    (hrest : ∀ before s, rest before s = true ↔ ∃ mid post, s = mid ++ post ∧ Matches word ps before mid post.head?) :
    manyThen p rest s = true ↔ ∃ mid post, s = mid ++ post ∧ Matches word (.many p :: ps) before mid post.head? := by
  induction s generalizing before with
  | nil =>
    constructor
    · intro h
      cases h
    · rintro ⟨mid, post, hs, hm⟩
      obtain ⟨rfl, rfl⟩ := List.append_eq_nil_iff.mp hs.symm
      cases hm
  | cons c s ih =>
    rw [manyThen, Bool.and_eq_true, Bool.or_eq_true, hrest, ih]
    constructor
    · rintro ⟨hc, ⟨mid, post, rfl, hm⟩ | ⟨mid, post, rfl, hm⟩⟩
      · exact ⟨c :: mid, post, rfl, .last hc hm⟩
      · exact ⟨c :: mid, post, rfl, .more hc hm⟩
    · rintro ⟨mid, post, hs, hm⟩
      cases hm with
      | last h hm =>
        obtain ⟨rfl, rfl⟩ := List.cons_eq_cons.mp hs
        exact ⟨h, .inl ⟨_, _, rfl, hm⟩⟩
      | more h hm =>
        obtain ⟨rfl, rfl⟩ := List.cons_eq_cons.mp hs
        exact ⟨h, .inr ⟨_, _, rfl, hm⟩⟩

theorem matchesAt_iff : matchesAt word ps before s = true ↔
    ∃ mid post, s = mid ++ post ∧ Matches word ps before mid post.head? := by
  induction ps generalizing before s with
  | nil =>
    refine iff_of_true rfl ⟨[], s, rfl, .nil⟩
  | cons piece ps ih =>
    cases piece with
    | edge =>
      rw [matchesAt, Bool.and_eq_true, ih]
      constructor
      · rintro ⟨hedge, mid, post, rfl, hm⟩
        exact ⟨mid, post, rfl, .edge (by rwa [← head?_append_or]) hm⟩
      · rintro ⟨mid, post, rfl, hm⟩
        cases hm with
        | edge h hm => exact ⟨by rwa [head?_append_or], mid, post, rfl, hm⟩
    | one p =>
      cases s with
      | nil =>
        constructor
        · intro h
          cases h
        · rintro ⟨mid, post, hs, hm⟩
          obtain ⟨rfl, rfl⟩ := List.append_eq_nil_iff.mp hs.symm
          cases hm
      | cons c s =>
        rw [matchesAt, Bool.and_eq_true, ih]
        constructor
        · rintro ⟨hc, mid, post, rfl, hm⟩
          exact ⟨c :: mid, post, rfl, .one hc hm⟩
        · rintro ⟨mid, post, hs, hm⟩
          cases hm with
          | one h hm =>
            obtain ⟨rfl, rfl⟩ := List.cons_eq_cons.mp hs
            exact ⟨h, _, _, rfl, hm⟩
    | many p => exact manyThen_iff fun _ _ => ih

theorem search_iff : search word ps before s = true ↔
    ∃ pre mid post, s = pre ++ mid ++ post ∧ Matches word ps (pre.getLast?.or before) mid post.head? := by
  induction s generalizing before with
  | nil =>
    rw [search, matchesAt_iff]
    constructor
    · rintro ⟨mid, post, hs, hm⟩
      exact ⟨[], mid, post, hs, hm⟩
    · rintro ⟨pre, mid, post, hs, hm⟩
      obtain ⟨hpm, rfl⟩ := List.append_eq_nil_iff.mp hs.symm
      obtain ⟨rfl, rfl⟩ := List.append_eq_nil_iff.mp hpm
      exact ⟨[], [], rfl, hm⟩
  | cons c s ih =>
    rw [search, Bool.or_eq_true, matchesAt_iff, ih]
    constructor
    · rintro (⟨mid, post, hs, hm⟩ | ⟨pre, mid, post, rfl, hm⟩)
      · exact ⟨[], mid, post, hs, hm⟩
      · refine ⟨c :: pre, mid, post, rfl, ?_⟩
        cases pre with
        | nil => exact hm
        | cons d pre => rwa [List.getLast?_cons_cons]
    · rintro ⟨pre, mid, post, hs, hm⟩
      cases pre with
      | nil => exact .inl ⟨mid, post, hs, hm⟩
      | cons d pre =>
        obtain ⟨rfl, rfl⟩ := List.cons_eq_cons.mp hs
        refine .inr ⟨pre, mid, post, rfl, ?_⟩
        cases pre with
        | nil => exact hm
        | cons d pre => rwa [List.getLast?_cons_cons] at hm

/-- A pattern is found exactly if some part of the text matches it. -/
theorem found_iff : found word ps s = true ↔
    ∃ pre mid post, s = pre ++ mid ++ post ∧ Matches word ps pre.getLast? mid post.head? := by
  rw [found, search_iff]
  simp only [Option.or_none]

/-- Of the letters around a match, it matters only whether they are in a word. -/
theorem Matches.around {before' after' : Option α} (h : Matches word ps before s after)
    (hbefore : before'.any word = before.any word) (hafter : after'.any word = after.any word) :
    Matches word ps before' s after' := by
  induction h generalizing before' with
  | nil => exact .nil
  | @edge ps before after s hedge hrest ih =>
    refine .edge ?_ (ih hbefore hafter)
    rw [atEdge] at hedge ⊢
    cases s with
    | nil => simpa [hbefore, hafter] using hedge
    | cons c s => simpa [hbefore] using hedge
  | one hc _ ih => exact .one hc (ih rfl hafter)
  | last hc _ ih => exact .last hc (ih rfl hafter)
  | more hc _ ih => exact .more hc (ih rfl hafter)

/-! ### Separators -/

/-- A part of the text without the letter `sep` matches. -/
def Inside (word : α → Bool) (sep : α) (ps : Pattern α) (s : List α) : Prop :=
  ∃ pre mid post, s = pre ++ mid ++ post ∧ sep ∉ mid ∧ Matches word ps pre.getLast? mid post.head?

/-- The pattern has no place for the letter `sep`. -/
def Avoids (sep : α) (ps : Pattern α) : Prop := ∀ p, .one p ∈ ps ∨ .many p ∈ ps → p sep = false

variable {sep : α}

theorem avoids_edge : Avoids sep [.edge] := by
  simp [Avoids]

theorem avoids_one {p : α → Bool} (hp : p sep = false) : Avoids sep [.one p] := by
  simpa [Avoids] using hp

theorem Avoids.append {qs : Pattern α} (hps : Avoids sep ps) (hqs : Avoids sep qs) : Avoids sep (ps ++ qs) := by
  intro p hp
  simp only [List.mem_append] at hp
  rcases hp with (h | h) | (h | h)
  · exact hps p (.inl h)
  · exact hqs p (.inl h)
  · exact hps p (.inr h)
  · exact hqs p (.inr h)

theorem Avoids.not_mem (hps : Avoids sep ps) (h : Matches word ps before s after) : sep ∉ s := by
  induction h with
  | nil => exact List.not_mem_nil
  | edge _ _ ih => exact ih fun p hp => hps p (hp.imp (List.mem_cons_of_mem _) (List.mem_cons_of_mem _))
  | @one p ps _ _ c _ hc _ ih | @last p ps _ _ c _ hc _ ih =>
    refine List.not_mem_cons_of_ne_of_not_mem ?_
      (ih fun p hp => hps p (hp.imp (List.mem_cons_of_mem _) (List.mem_cons_of_mem _)))
    rintro rfl
    rw [hps p (by simp)] at hc
    cases hc
  | @more p ps _ _ c _ hc _ ih =>
    refine List.not_mem_cons_of_ne_of_not_mem ?_ (ih hps)
    rintro rfl
    rw [hps p (by simp)] at hc
    cases hc

theorem Avoids.found_iff (hps : Avoids sep ps) : found word ps s = true ↔ Inside word sep ps s := by
  rw [Pattern.found_iff]
  constructor
  · rintro ⟨pre, mid, post, hs, hm⟩
    exact ⟨pre, mid, post, hs, hps.not_mem hm, hm⟩
  · rintro ⟨pre, mid, post, hs, -, hm⟩
    exact ⟨pre, mid, post, hs, hm⟩

theorem Inside.found (h : Inside word sep ps s) : Pattern.found word ps s = true := by
  obtain ⟨pre, mid, post, hs, -, hm⟩ := h
  exact Pattern.found_iff.mpr ⟨pre, mid, post, hs, hm⟩

/-- The last letter behind a separator. -/
theorem any_getLast? (hsep : word sep = false) (x u : List α) :
    (x ++ sep :: u).getLast?.any word = u.getLast?.any word := by
  rw [List.getLast?_append]
  cases u with
  | nil => simp [hsep]
  | cons e u =>
    rw [List.getLast?_cons_cons, List.getLast?_cons]
    rfl

/-- What matches without the separator stands on one side of it. -/
theorem inside_append (hsep : word sep = false) (x y : List α) :
    Inside word sep ps (x ++ sep :: y) ↔ Inside word sep ps x ∨ Inside word sep ps y := by
  constructor
  · rintro ⟨pre, mid, post, hs, hmid, hm⟩
    rcases List.append_eq_append_iff.mp hs with ⟨t, hpm, hy⟩ | ⟨t, rfl, hpost⟩
    · cases t with
      | nil =>
        rw [List.append_nil] at hpm
        obtain rfl : post = sep :: y := by simpa using hy.symm
        exact .inl ⟨pre, mid, [], by rw [hpm, List.append_nil], hmid, hm.around rfl (by simp [hsep])⟩
      | cons d t =>
        obtain ⟨rfl, rfl⟩ := List.cons_eq_cons.mp hy
        -- The separator is before the match, since it is not in it.
        rcases List.append_eq_append_iff.mp hpm with ⟨u, hu, hmid'⟩ | ⟨u, rfl, hu⟩
        · cases u with
          | nil =>
            rw [List.nil_append] at hmid'
            exact absurd (hmid' ▸ List.mem_cons_self) hmid
          | cons e u => exact absurd (hmid' ▸ by simp) hmid
        · cases u with
          | nil =>
            rw [List.nil_append] at hu
            exact absurd (hu ▸ List.mem_cons_self) hmid
          | cons e u =>
            obtain ⟨rfl, rfl⟩ := List.cons_eq_cons.mp hu
            exact .inr ⟨u, mid, post, rfl, hmid, hm.around (any_getLast? hsep x u).symm rfl⟩
    · refine .inl ⟨pre, mid, t, rfl, hmid, hm.around rfl ?_⟩
      cases t with
      | nil =>
        obtain rfl : post = sep :: y := by simpa using hpost
        simp [hsep]
      | cons d t =>
        rw [hpost]
        rfl
  · rintro (⟨pre, mid, post, rfl, hmid, hm⟩ | ⟨pre, mid, post, rfl, hmid, hm⟩)
    · refine ⟨pre, mid, post ++ sep :: y, by simp, hmid, hm.around rfl ?_⟩
      cases post with
      | nil => simp [hsep]
      | cons d post => rfl
    · exact ⟨x ++ sep :: pre, mid, post, by simp, hmid, hm.around (any_getLast? hsep x pre) rfl⟩

theorem inside_intercalate (hsep : word sep = false) {parts : List (List α)} (hparts : parts ≠ []) :
    Inside word sep ps ([sep].intercalate parts) ↔ ∃ part ∈ parts, Inside word sep ps part := by
  induction parts with
  | nil => exact absurd rfl hparts
  | cons part parts ih =>
    cases parts with
    | nil => simp
    | cons part' parts =>
      have hsplit : [sep].intercalate (part :: part' :: parts) = part ++ sep :: [sep].intercalate (part' :: parts) := by
        simp
      rw [hsplit, inside_append hsep, ih (by simp)]
      simp

end Pattern

end Effects
