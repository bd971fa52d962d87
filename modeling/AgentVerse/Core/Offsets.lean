import Mathlib.Data.List.Infix
import Mathlib.Data.String.Basic

/-!
# Byte offsets

The positions of a text are offsets into its UTF-8 encoding. Cutting a text at an offset fails where the offset is past
the end or inside a character (`splitAt_eq_some`). A search returns the offset of the first occurrence
(`splitOnce_eq_some`), at which the text can be cut.
-/

namespace Utf8

open String (utf8Len)

variable {s l r pat pre post : List Char} {n : Nat}

/-! ### Slices -/

/-- `s.split_at(n)`; none where the offset is outside the text or inside a character. -/
def splitAt : List Char → Nat → Option (List Char × List Char)
  | s, 0 => some ([], s)
  | [], _ + 1 => none
  | c :: s, n + 1 =>
    if c.utf8Size ≤ n + 1 then (splitAt s (n + 1 - c.utf8Size)).map fun x => (c :: x.1, x.2) else none

/-- `&s[n..]`. -/
def sliceFrom (s : List Char) (n : Nat) : Option (List Char) := (splitAt s n).map (·.2)

/-- `&s[..n]`. -/
def sliceTo (s : List Char) (n : Nat) : Option (List Char) := (splitAt s n).map (·.1)

/-- `s.replace_range(a..b, v)`. -/
def replaceRange (s : List Char) (a b : Nat) (v : List Char) : Option (List Char) :=
  if a ≤ b then do
    let (before, _) ← splitAt s a
    let (_, behind) ← splitAt s b
    return before ++ v ++ behind
  else none

/-- A text is cut exactly at the offsets between its characters. -/
theorem splitAt_eq_some : splitAt s n = some (l, r) ↔ s = l ++ r ∧ utf8Len l = n := by
  fun_induction splitAt s n generalizing l with
  | case1 s =>
    simp only [Option.some.injEq, Prod.mk.injEq, String.utf8Len_eq_zero]
    constructor
    · rintro ⟨rfl, rfl⟩
      exact ⟨rfl, rfl⟩
    · rintro ⟨h, rfl⟩
      exact ⟨rfl, h⟩
  | case2 n =>
    simp only [reduceCtorEq, false_iff, not_and]
    intro h
    obtain ⟨rfl, -⟩ := List.append_eq_nil_iff.mp h.symm
    simp
  | case3 c s n hle ih =>
    have hc : 0 < c.utf8Size := Char.utf8Size_pos c
    constructor
    · intro h
      obtain ⟨⟨l', r'⟩, hcut, hx⟩ := Option.map_eq_some_iff.mp h
      cases hx
      obtain ⟨rfl, hl⟩ := ih.mp hcut
      refine ⟨rfl, ?_⟩
      rw [String.utf8Len_cons, hl]
      omega
    · rintro ⟨h, hl⟩
      cases l with
      | nil => cases hl
      | cons c' l =>
        obtain ⟨rfl, rfl⟩ := List.cons_eq_cons.mp h
        rw [String.utf8Len_cons] at hl
        rw [ih.mpr ⟨rfl, by omega⟩]
        rfl
  | case4 c s n hle =>
    simp only [reduceCtorEq, false_iff, not_and]
    intro h hl
    cases l with
    | nil => cases hl
    | cons c' l =>
      obtain ⟨rfl, -⟩ := List.cons_eq_cons.mp h
      rw [String.utf8Len_cons] at hl
      omega

@[simp] theorem splitAt_append (l r : List Char) : splitAt (l ++ r) (utf8Len l) = some (l, r) :=
  splitAt_eq_some.mpr ⟨rfl, rfl⟩

@[simp] theorem sliceFrom_append (l r : List Char) : sliceFrom (l ++ r) (utf8Len l) = some r := by simp [sliceFrom]

@[simp] theorem sliceTo_append (l r : List Char) : sliceTo (l ++ r) (utf8Len l) = some l := by simp [sliceTo]

/-- The rest of a text from an offset is shorter by the offset. -/
theorem utf8Len_sliceFrom (h : sliceFrom s n = some r) : n + utf8Len r = utf8Len s := by
  obtain ⟨⟨l, r'⟩, hcut, rfl⟩ := Option.map_eq_some_iff.mp h
  obtain ⟨rfl, rfl⟩ := splitAt_eq_some.mp hcut
  rw [String.utf8Len_append]

theorem replaceRange_append (l m r v : List Char) :
    replaceRange (l ++ m ++ r) (utf8Len l) (utf8Len l + utf8Len m) v = some (l ++ v ++ r) := by
  have hl : splitAt (l ++ m ++ r) (utf8Len l) = some (l, m ++ r) := by rw [List.append_assoc, splitAt_append]
  have hr : splitAt (l ++ m ++ r) (utf8Len l + utf8Len m) = some (l ++ m, r) := by
    rw [← String.utf8Len_append, splitAt_append]
  rw [replaceRange, if_pos (Nat.le_add_right ..), hl, hr]
  rfl

/-- A replacement changes the length by the difference of the lengths. -/
theorem utf8Len_replaceRange {a b : Nat} {v s' : List Char} (h : replaceRange s a b v = some s') :
    a ≤ b ∧ utf8Len s' + b = utf8Len s + a + utf8Len v := by
  unfold replaceRange at h
  split at h
  · rename_i hab
    obtain ⟨⟨l, r⟩, hl, h⟩ := Option.bind_eq_some_iff.mp h
    obtain ⟨⟨l', r'⟩, hr, h⟩ := Option.bind_eq_some_iff.mp h
    cases h
    obtain ⟨hs, rfl⟩ := splitAt_eq_some.mp hl
    obtain ⟨rfl, rfl⟩ := splitAt_eq_some.mp hr
    refine ⟨hab, ?_⟩
    simp only [String.utf8Len_append]
    omega
  · cases h

/-! ### Searches -/

/-- `s.split_once(pat)`: what stands before and behind the first occurrence. -/
def splitOnce (pat : List Char) : List Char → Option (List Char × List Char)
  | [] => if pat.isPrefixOf [] then some ([], []) else none
  | c :: s =>
    if pat.isPrefixOf (c :: s) then some ([], (c :: s).drop pat.length)
    else (splitOnce pat s).map fun x => (c :: x.1, x.2)

/-- `s.find(pat)`. -/
def find (pat s : List Char) : Option Nat := (splitOnce pat s).map fun x => utf8Len x.1

theorem splitOnce_eq_none : splitOnce pat s = none ↔ ¬ pat <:+: s := by
  induction s with
  | nil => simp [splitOnce]
  | cons c s ih =>
    rw [splitOnce, List.infix_cons_iff]
    by_cases h : pat <+: c :: s
    · simp [h, List.isPrefixOf_iff_prefix]
    · simp [h, ih, List.isPrefixOf_iff_prefix]

/-- The first occurrence: no other one starts before it. -/
theorem splitOnce_eq_some (h : splitOnce pat s = some (pre, post)) :
    s = pre ++ pat ++ post ∧ ∀ l r, s = l ++ pat ++ r → pre.length ≤ l.length := by
  induction s generalizing pre with
  | nil =>
    unfold splitOnce at h
    split at h
    · rename_i hpat
      cases h
      obtain rfl := List.prefix_nil.mp (List.isPrefixOf_iff_prefix.mp hpat)
      exact ⟨rfl, fun _ _ _ => Nat.zero_le _⟩
    · cases h
  | cons c s ih =>
    unfold splitOnce at h
    split at h
    · rename_i hpat
      cases h
      obtain ⟨t, ht⟩ := List.isPrefixOf_iff_prefix.mp hpat
      refine ⟨?_, fun _ _ _ => Nat.zero_le _⟩
      rw [← ht, List.drop_left]
      rfl
    · rename_i hpat
      obtain ⟨⟨pre', post'⟩, hrest, hx⟩ := Option.map_eq_some_iff.mp h
      cases hx
      obtain ⟨rfl, hfirst⟩ := ih hrest
      refine ⟨rfl, fun l r hs => ?_⟩
      cases l with
      | nil => exact absurd (List.isPrefixOf_iff_prefix.mpr ⟨r, hs.symm⟩) hpat
      | cons c' l =>
        obtain ⟨-, hs⟩ := List.cons_eq_cons.mp hs
        exact Nat.succ_le_succ (hfirst l r hs)

/-- The first occurrence of a character. -/
theorem splitOnce_char {c : Char} (h : splitOnce [c] s = some (pre, post)) : s = pre ++ c :: post ∧ c ∉ pre := by
  obtain ⟨rfl, hfirst⟩ := splitOnce_eq_some h
  refine ⟨by simp, fun hc => ?_⟩
  obtain ⟨l, r, rfl⟩ := List.append_of_mem hc
  have := hfirst l (r ++ [c] ++ post) (by simp)
  simp at this

end Utf8
