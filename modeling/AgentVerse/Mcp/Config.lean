import AgentVerse.Core.Offsets
import AgentVerse.Effects.While
import AgentVerse.Mcp.Remote

/-!
# Environment variables in MCP configurations

`expand_env` rewrites the text that it scans. What stands before its index is finished and what stands behind is
untouched, so it expands the placeholders of the text once, from left to right, whatever the values are
(`expandEnv_exact`).
-/

namespace AgentVerse.Mcp

open Effects Utf8
open String (utf8Len)

/-! ### `expand_env` -/

/-- The text that is rewritten, and the index from which it is searched. -/
structure Expansion where
  result : List Char
  i : Nat

/-- One turn of the loop. `env` is `std::env::var`. -/
def expandTurn (env : String → Option String) (s : String) (st : Expansion) :
    Option (Except McpError String ⊕ Expansion) := do
  match find "$\x7b".toList (← sliceFrom st.result st.i) with
  | none => return .inl (.ok (String.ofList st.result))
  | some start =>
    let absStart := st.i + start
    let rest ← sliceFrom st.result (absStart + 2)
    match find "\x7d".toList rest with
    | none => return .inl (.error (.config ("Unclosed '$\x7b' in: " ++ s)))
    | some fin =>
      let varName := String.ofList (← sliceTo rest fin)
      match env varName with
      | none => return .inl (.error (.config ("Undefined env var: $\x7b" ++ varName ++ "\x7d")))
      | some value =>
        let result ← replaceRange st.result absStart (absStart + 2 + fin + 1) value.toList
        return .inr ⟨result, absStart + utf8Len value.toList⟩

/-- A turn leaves less of the text to scan. -/
theorem expandTurn_shorter (env : String → Option String) (s : String) (st st' : Expansion)
    (h : expandTurn env s st = some (.inr st')) :
    utf8Len st'.result - st'.i < utf8Len st.result - st.i := by
  unfold expandTurn at h
  obtain ⟨tail, htail, h⟩ := Option.bind_eq_some_iff.mp h
  have hlen := utf8Len_sliceFrom htail
  split at h
  · cases h
  · rename_i start hstart
    obtain ⟨rest, hrest, h⟩ := Option.bind_eq_some_iff.mp h
    have hlen' := utf8Len_sliceFrom hrest
    split at h
    · cases h
    · rename_i fin hfin
      obtain ⟨name, -, h⟩ := Option.bind_eq_some_iff.mp h
      dsimp only at h
      split at h
      · cases h
      · rename_i value hvalue
        obtain ⟨result, hresult, h⟩ := Option.bind_eq_some_iff.mp h
        cases h
        obtain ⟨-, hreplaced⟩ := utf8Len_replaceRange hresult
        dsimp only
        omega

/-- Replace the placeholders of environment variables; none is a panic. -/
def expandEnv (env : String → Option String) (s : String) : Option (Except McpError String) :=
  loop (expandTurn env s) (fun st => utf8Len st.result - st.i) (expandTurn_shorter env s) ⟨s.toList, 0⟩

/-! ### The scan -/

/-- What a scan of a text finds, one piece after the other. -/
inductive Piece where
  | text (cs : List Char)
  | placeholder (name : List Char)
  /-- The rest of the text behind an opening that is not closed. -/
  | unclosed (rest : List Char)
  deriving DecidableEq

namespace Piece

/-- How the piece is written. -/
def source : Piece → List Char
  | text cs => cs
  | placeholder name => "$\x7b".toList ++ name ++ "\x7d".toList
  | unclosed rest => "$\x7b".toList ++ rest

/-- A placeholder is closed and names a variable that is defined. -/
def Resolves (env : String → Option String) : Piece → Prop
  | text _ => True
  | placeholder name => (env (String.ofList name)).isSome
  | unclosed _ => False

instance (env : String → Option String) (p : Piece) : Decidable (p.Resolves env) := by
  cases p <;> unfold Resolves <;> infer_instance

/-- What the piece is replaced by. -/
def value (env : String → Option String) : Piece → List Char
  | text cs => cs
  | placeholder name => ((env (String.ofList name)).getD "").toList
  | unclosed _ => []

/-- A text has no opening in it, a name and what stands behind an opening that is not closed have no closing brace. -/
def Clean : Piece → Prop
  | text cs => ¬ "$\x7b".toList <:+: cs
  | placeholder name => '\x7d' ∉ name
  | unclosed rest => '\x7d' ∉ rest

end Piece

/-- The scan of a text from left to right. After a placeholder it resumes behind the closing brace. -/
def scan (s : List Char) : List Piece :=
  match _h : splitOnce "$\x7b".toList s with
  | none => [.text s]
  | some (pre, rest) =>
    match _h' : splitOnce "\x7d".toList rest with
    | none => [.text pre, .unclosed rest]
    | some (name, behind) => .text pre :: .placeholder name :: scan behind
termination_by s.length
decreasing_by
  obtain ⟨rfl, -⟩ := splitOnce_eq_some _h
  obtain ⟨rfl, -⟩ := splitOnce_eq_some _h'
  simp only [List.length_append]
  have : 0 < "$\x7b".toList.length := by decide
  omega

variable {env : String → Option String} {s pre rest name behind : List Char}

theorem scan_text (h : splitOnce "$\x7b".toList s = none) : scan s = [.text s] := by
  unfold scan
  split
  · rfl
  · rename_i hs
    rw [h] at hs
    cases hs

theorem scan_unclosed (h : splitOnce "$\x7b".toList s = some (pre, rest))
    (hrest : splitOnce "\x7d".toList rest = none) : scan s = [.text pre, .unclosed rest] := by
  unfold scan
  split
  · rename_i hs
    rw [h] at hs
    cases hs
  · rename_i hs
    rw [h] at hs
    cases hs
    split
    · rfl
    · rename_i hs
      rw [hrest] at hs
      cases hs

theorem scan_placeholder (h : splitOnce "$\x7b".toList s = some (pre, rest))
    (hrest : splitOnce "\x7d".toList rest = some (name, behind)) :
    scan s = .text pre :: .placeholder name :: scan behind := by
  rw [scan.eq_def s]
  split
  · rename_i hs
    rw [h] at hs
    cases hs
  · rename_i hs
    rw [h] at hs
    cases hs
    split
    · rename_i hs
      rw [hrest] at hs
      cases hs
    · rename_i hs
      rw [hrest] at hs
      cases hs
      rfl

/-- The pieces, as they are written, are the text. -/
theorem scan_source (s : List Char) : (scan s).flatMap Piece.source = s := by
  induction hn : s.length using Nat.strongRecOn generalizing s with
  | _ n ih =>
    cases h : splitOnce "$\x7b".toList s with
    | none => simp [scan_text h, Piece.source]
    | some x =>
      obtain ⟨pre, rest⟩ := x
      obtain ⟨rfl, -⟩ := splitOnce_eq_some h
      cases hrest : splitOnce "\x7d".toList rest with
      | none =>
        rw [scan_unclosed h hrest]
        simp [Piece.source]
      | some y =>
        obtain ⟨name, behind⟩ := y
        obtain ⟨rfl, -⟩ := splitOnce_eq_some hrest
        have hshorter : behind.length < n := by
          rw [← hn]
          simp
          omega
        rw [scan_placeholder h hrest, List.flatMap_cons, List.flatMap_cons, ih behind.length hshorter behind rfl]
        simp [Piece.source]

/-- Text pieces hold no opening and names hold no closing brace, so the scan meets every opening outside the names. -/
theorem scan_clean (s : List Char) : ∀ p ∈ scan s, p.Clean := by
  induction hn : s.length using Nat.strongRecOn generalizing s with
  | _ n ih =>
    cases h : splitOnce "$\x7b".toList s with
    | none =>
      rw [scan_text h]
      exact List.forall_mem_singleton.mpr (splitOnce_eq_none.mp h)
    | some x =>
      obtain ⟨pre, rest⟩ := x
      obtain ⟨hs, hfirst⟩ := splitOnce_eq_some h
      have hpre : (Piece.text pre).Clean := by
        rintro ⟨l, r, rfl⟩
        have := hfirst l (r ++ "$\x7b".toList ++ rest) (by simp [hs])
        simp at this
      cases hrest : splitOnce "\x7d".toList rest with
      | none =>
        rw [scan_unclosed h hrest, List.forall_mem_cons, List.forall_mem_singleton]
        refine ⟨hpre, fun hmem => splitOnce_eq_none.mp hrest ?_⟩
        obtain ⟨l, r, rfl⟩ := List.append_of_mem hmem
        exact ⟨l, r, by simp⟩
      | some y =>
        obtain ⟨name, behind⟩ := y
        obtain ⟨rfl, hname⟩ := splitOnce_char hrest
        have hshorter : behind.length < n := by
          rw [← hn, hs]
          simp
          omega
        rw [scan_placeholder h hrest, List.forall_mem_cons, List.forall_mem_cons]
        exact ⟨hpre, hname, ih behind.length hshorter behind rfl⟩

/-! ### Expansion of the pieces -/

/-- The expansion of the pieces of `s`, up to the first one that does not resolve. -/
def expandPieces (env : String → Option String) (s : String) : List Piece → Except McpError (List Char)
  | [] => .ok []
  | .text cs :: ps => (expandPieces env s ps).map (cs ++ ·)
  | .placeholder name :: ps =>
    match env (String.ofList name) with
    | none => .error (.config ("Undefined env var: $\x7b" ++ String.ofList name ++ "\x7d"))
    | some value => (expandPieces env s ps).map (value.toList ++ ·)
  | .unclosed _ :: _ => .error (.config ("Unclosed '$\x7b' in: " ++ s))

/-- The pieces expand exactly if all of them resolve, to their values one behind the other. -/
theorem expandPieces_eq_ok (s : String) (ps : List Piece) (out : List Char) :
    expandPieces env s ps = .ok out ↔ (∀ p ∈ ps, p.Resolves env) ∧ out = ps.flatMap (·.value env) := by
  -- A piece that resolves is put in front of the expansion of the others.
  have hcons : ∀ (p : Piece) (ps : List Piece), (∀ out, expandPieces env s ps = .ok out ↔
        (∀ p ∈ ps, p.Resolves env) ∧ out = ps.flatMap (·.value env)) → p.Resolves env → ∀ out,
      (expandPieces env s ps).map (p.value env ++ ·) = .ok out ↔
        (∀ q ∈ p :: ps, q.Resolves env) ∧ out = (p :: ps).flatMap (·.value env) := by
    intro p ps ih hp out
    rw [map_eq_ok, List.forall_mem_cons, List.flatMap_cons]
    constructor
    · rintro ⟨out', hps, rfl⟩
      obtain ⟨hall, rfl⟩ := (ih out').mp hps
      exact ⟨⟨hp, hall⟩, rfl⟩
    · rintro ⟨⟨-, hall⟩, rfl⟩
      exact ⟨_, (ih _).mpr ⟨hall, rfl⟩, rfl⟩
  induction ps generalizing out with
  | nil => simp [expandPieces, eq_comm]
  | cons p ps ih =>
    cases p with
    | text cs => exact hcons (.text cs) ps ih trivial out
    | placeholder name =>
      cases hvalue : env (String.ofList name) with
      | none => simp [expandPieces, hvalue, Piece.Resolves]
      | some value =>
        have hp : (Piece.placeholder name).Resolves env := by simp [Piece.Resolves, hvalue]
        have := hcons (.placeholder name) ps ih hp out
        simpa only [expandPieces, Piece.value, hvalue, Option.getD_some] using this
    | unclosed rest => simp [expandPieces, Piece.Resolves]

/-! ### The loop -/

/-- What a turn does where the text before its index is finished. -/
theorem expandTurn_eq (env : String → Option String) (s : String) (done rest : List Char) :
    expandTurn env s ⟨done ++ rest, utf8Len done⟩ = some (
      match splitOnce "$\x7b".toList rest with
      | none => .inl (.ok (String.ofList (done ++ rest)))
      | some (pre, rest) =>
        match splitOnce "\x7d".toList rest with
        | none => .inl (.error (.config ("Unclosed '$\x7b' in: " ++ s)))
        | some (name, behind) =>
          match env (String.ofList name) with
          | none => .inl (.error (.config ("Undefined env var: $\x7b" ++ String.ofList name ++ "\x7d")))
          | some value =>
            .inr ⟨(done ++ pre ++ value.toList) ++ behind, utf8Len (done ++ pre ++ value.toList)⟩) := by
  -- Every offset that is cut at is the length of a prefix.
  have hopening : utf8Len "$\x7b".toList = 2 := by decide
  have hclosing : utf8Len "\x7d".toList = 1 := by decide
  simp only [expandTurn, sliceFrom_append, Utf8.find, Option.bind_eq_bind, Option.bind_some]
  cases h : splitOnce "$\x7b".toList rest with
  | none => rfl
  | some x =>
    obtain ⟨pre, rest'⟩ := x
    obtain ⟨rfl, -⟩ := splitOnce_eq_some h
    have hcut : sliceFrom (done ++ (pre ++ "$\x7b".toList ++ rest')) (utf8Len done + utf8Len pre + 2) = some rest' := by
      have := sliceFrom_append (done ++ pre ++ "$\x7b".toList) rest'
      simpa only [String.utf8Len_append, hopening, List.append_assoc, Nat.add_assoc] using this
    simp only [Option.map_some, hcut, Option.bind_some]
    cases hrest : splitOnce "\x7d".toList rest' with
    | none => rfl
    | some y =>
      obtain ⟨name, behind⟩ := y
      obtain ⟨rfl, -⟩ := splitOnce_eq_some hrest
      have hname : sliceTo (name ++ "\x7d".toList ++ behind) (utf8Len name) = some name := by
        rw [List.append_assoc, sliceTo_append]
      simp only [Option.map_some, hname, Option.bind_some]
      cases env (String.ofList name) with
      | none => rfl
      | some value =>
        have hreplaced :=
          replaceRange_append (done ++ pre) ("$\x7b".toList ++ name ++ "\x7d".toList) behind value.toList
        simp only [String.utf8Len_append, hopening, hclosing, List.append_assoc, Nat.add_assoc] at hreplaced
        simp only [List.append_assoc, Nat.add_assoc, hreplaced, Option.bind_some, String.utf8Len_append]
        rfl

/-- The expansion of `s` before a turn: what stands before the index is finished, the rest is scanned as it is. -/
structure Tracks (env : String → Option String) (s : String) (st : Expansion) (done rest : List Char) : Prop where
  result : st.result = done ++ rest
  i : st.i = utf8Len done
  outcome : expandPieces env s (scan s.toList) = (expandPieces env s (scan rest)).map (done ++ ·)

/-- The result is the expansion of the pieces that a scan of the text finds, and no slice of it fails. -/
theorem expandEnv_eq (env : String → Option String) (s : String) :
    expandEnv env s = some ((expandPieces env s (scan s.toList)).map String.ofList) := by
  have hbody : ∀ st, (∃ done rest, Tracks env s st done rest) →
      (∃ r, expandTurn env s st = some (.inl r) ∧ r = (expandPieces env s (scan s.toList)).map String.ofList) ∨
        ∃ st', expandTurn env s st = some (.inr st') ∧ ∃ done rest, Tracks env s st' done rest := by
    rintro ⟨_, _⟩ ⟨done, rest, rfl, rfl, houtcome⟩
    rw [expandTurn_eq, houtcome]
    cases h : splitOnce "$\x7b".toList rest with
    | none =>
      refine .inl ⟨_, rfl, ?_⟩
      rw [scan_text h]
      simp [expandPieces, Except.map]
    | some x =>
      obtain ⟨pre, rest⟩ := x
      dsimp only
      cases hrest : splitOnce "\x7d".toList rest with
      | none =>
        refine .inl ⟨_, rfl, ?_⟩
        rw [scan_unclosed h hrest]
        rfl
      | some y =>
        obtain ⟨name, behind⟩ := y
        rw [scan_placeholder h hrest] at houtcome ⊢
        dsimp only
        cases hvalue : env (String.ofList name) with
        | none =>
          refine .inl ⟨_, rfl, ?_⟩
          simp [expandPieces, hvalue, Except.map]
        | some value =>
          refine .inr ⟨_, rfl, done ++ pre ++ value.toList, behind, rfl, rfl, ?_⟩
          rw [houtcome]
          simp only [expandPieces, hvalue]
          cases expandPieces env s (scan behind) <;> simp [Except.map]
  have hstart : Tracks env s ⟨s.toList, 0⟩ [] s.toList :=
    ⟨rfl, rfl, by cases expandPieces env s (scan s.toList) <;> rfl⟩
  obtain ⟨r, hr, rfl⟩ := loop_rule hbody ⟨_, _, hstart⟩
  exact hr

/-- The scan cuts the text into pieces at every opening outside the names; expansion is total, succeeds exactly if every
placeholder of the text is closed and names a variable that is defined, and puts the values in the places of the
placeholders. -/
theorem expandEnv_exact (env : String → Option String) (s : String) :
    (scan s.toList).flatMap Piece.source = s.toList ∧ (∀ p ∈ scan s.toList, p.Clean) ∧
      ∃ r, expandEnv env s = some r ∧ ∀ out, r = .ok out ↔
        (∀ p ∈ scan s.toList, p.Resolves env) ∧ out = String.ofList ((scan s.toList).flatMap (·.value env)) := by
  refine ⟨scan_source s.toList, scan_clean s.toList, _, expandEnv_eq env s, fun out => ?_⟩
  rw [map_eq_ok]
  constructor
  · rintro ⟨cs, hcs, rfl⟩
    obtain ⟨hall, rfl⟩ := (expandPieces_eq_ok s (scan s.toList) cs).mp hcs
    exact ⟨hall, rfl⟩
  · rintro ⟨hall, rfl⟩
    exact ⟨_, (expandPieces_eq_ok s (scan s.toList) _).mpr ⟨hall, rfl⟩, rfl⟩

end AgentVerse.Mcp
