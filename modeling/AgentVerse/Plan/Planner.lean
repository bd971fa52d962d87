import Mathlib.Data.List.Forall2
import AgentVerse.Core.Document
import AgentVerse.Core.Text
import AgentVerse.Plan.Strategy

/-!
# Planner

How `generate_plan` and `decompose_request` read the text of a response. The text is trimmed, a fence is taken off, and
what stands between the first opening and the last closing bracket is read as JSON. The JSON of a plan, in whichever way
it is written down, is found in any text around it that has no such brackets (`plan_extracted`).
-/

namespace AgentVerse

open Effects

/-- Texts of `serde_json` and of formatting: how an error describes a value, `{:?}` of a string, `{}` of a value, and
the error of reading a text as a list of strings. -/
structure PlannerTexts extends JsonTexts where
  unexpected : Json → String
  debug : String → String
  display : Json → String
  goalsError : String → JsonError

namespace Planner

/-! ### Finding the JSON -/

/-- `raw.strip_prefix(p).unwrap_or(raw)`. -/
def stripPrefix (p raw : List Char) : List Char := if p.isPrefixOf raw then raw.drop p.length else raw

/-- `raw.strip_suffix(p).unwrap_or(raw)`. -/
def stripSuffix (p raw : List Char) : List Char :=
  if p.isSuffixOf raw then raw.take (raw.length - p.length) else raw

/-- The text without a fence and without whitespace around it. -/
def unfence (text : String) : List Char :=
  let raw := trim text.toList
  let raw := stripPrefix "```json".toList raw
  let raw := stripPrefix "```".toList raw
  let raw := stripSuffix "```".toList raw
  trim raw

/-- From the first opening to the last closing bracket. -/
def slice (opening closing : Char) (raw : List Char) : List Char :=
  match raw.findIdx? (· = opening), raw.reverse.findIdx? (· = closing) with
  | some start, some fromEnd =>
    let last := raw.length - 1 - fromEnd
    if last ≥ start then (raw.drop start).take (last + 1 - start) else raw
  | _, _ => raw

/-! ### Reading a plan -/

variable (jt : PlannerTexts)

def usizeLimit : Nat := 2 ^ 64

/-- The digits of a number, most significant first. -/
def readDigits : Nat → List Char → Option Nat
  | n, [] => some n
  | n, c :: cs =>
    if c.isDigit && 10 * n + (c.toNat - '0'.toNat) < usizeLimit then readDigits (10 * n + (c.toNat - '0'.toNat)) cs
    else none

/-- A text without a plus sign in front. -/
def unsigned : List Char → List Char
  | [] => []
  | c :: cs => if c = '+' then cs else c :: cs

/-- `s.parse::<usize>()`. -/
def parseUsize (s : String) : Option Nat :=
  let digits := unsigned s.toList
  if digits.isEmpty then none else readDigits 0 digits

def invalidType (v : Json) (expected : String) : String :=
  "invalid type: " ++ jt.unexpected v ++ ", expected " ++ expected

def readUsize (v : Json) : Except String Nat :=
  match v with
  | .int n =>
    if 0 ≤ n ∧ n.toNat < usizeLimit then .ok n.toNat
    else .error ("invalid value: " ++ jt.unexpected v ++ ", expected usize")
  | v => .error (invalidType jt v "usize")

def readString (v : Json) : Except String String :=
  match v with
  | .string s => .ok s
  | v => .error (invalidType jt v "a string")

def readTool (v : Json) : Except String (Option String) :=
  match v with
  | .null => .ok none
  | v => some <$> readString jt v

/-- An element of `depends_on`: an integer or a numeric string. -/
def readId (v : Json) : Except String Nat :=
  match v with
  | .int n => if 0 ≤ n ∧ n.toNat < usizeLimit then .ok n.toNat else .error "expected non-negative integer"
  | .float _ => .error "expected non-negative integer"
  | .string s =>
    match parseUsize s with
    | some n => .ok n
    | none => .error ("cannot parse " ++ jt.debug s ++ " as integer")
  | other => .error ("expected integer or string, got " ++ jt.display other)

/-- `deserialize_id_vec`. -/
def readIds (v : Json) : Except String (List Nat) :=
  match v with
  | .array items => items.toList.mapM (readId jt)
  | v => .error (invalidType jt v "array of integers or integer strings")

/-- `Option::<Value>`. -/
def readArgs (v : Json) : Option Json :=
  match v with
  | .null => none
  | v => some v

/-- A member or an element that may be missing. -/
def optional {α : Type} (read : Json → Except String α) (default : α) : Option Json → Except String α
  | none => .ok default
  | some v => read v

/-- A member that must be there. It is read when it is met, and missed when all have been read. -/
def required {α : Type} (key : String) : Option α → Except String α
  | none => .error ("missing field \x60" ++ key ++ "\x60")
  | some a => .ok a

def invalidLength (n : Nat) (expected : String) : String :=
  "invalid length " ++ toString n ++ ", expected " ++ expected

/-- The members of a step in the order of their keys. -/
def stepOfFields (fields : JsonFields) : Except String PlanStep := do
  let dependsOn ← optional (readIds jt) [] (fields.get? "depends_on")
  let description ← optional (fun v => some <$> readString jt v) none (fields.get? "description")
  let id ← optional (fun v => some <$> readUsize jt v) none (fields.get? "id")
  let tool ← optional (readTool jt) none (fields.get? "tool")
  let id ← required "id" id
  let description ← required "description" description
  return ⟨id, description, tool, (fields.get? "args").bind readArgs, dependsOn⟩

/-- The fields of a step in their order, of which the last three may be missing. -/
def stepOfItems : List Json → Except String PlanStep
  | [] => .error (invalidLength 0 "struct PlanStep with 5 elements")
  | [id] => do
    let _ ← readUsize jt id
    .error (invalidLength 1 "struct PlanStep with 5 elements")
  | id :: description :: rest => do
    let id ← readUsize jt id
    let description ← readString jt description
    let tool ← optional (readTool jt) none rest[0]?
    let dependsOn ← optional (readIds jt) [] rest[2]?
    if rest.length > 3 then .error (invalidLength (rest.length + 2) "fewer elements in array")
    else return ⟨id, description, tool, rest[1]?.bind readArgs, dependsOn⟩

def stepOfValue (v : Json) : Except String PlanStep :=
  match v with
  | .object fields => stepOfFields jt fields
  | .array items => stepOfItems jt items.toList
  | v => .error (invalidType jt v "struct PlanStep")

def readSteps (v : Json) : Except String (List PlanStep) :=
  match v with
  | .array items => items.toList.mapM (stepOfValue jt)
  | v => .error (invalidType jt v "a sequence")

def planOfFields (fields : JsonFields) : Except String Plan := do
  let description ← optional (readString jt) "" (fields.get? "description")
  let steps ← optional (fun v => some <$> readSteps jt v) none (fields.get? "steps")
  let steps ← required "steps" steps
  return ⟨description, steps⟩

def planOfItems : List Json → Except String Plan
  | [] => .error (invalidLength 1 "struct Plan with 2 elements")
  | [description] => do
    let _ ← readString jt description
    .error (invalidLength 1 "struct Plan with 2 elements")
  | description :: steps :: rest => do
    let description ← readString jt description
    let steps ← readSteps jt steps
    if rest.length > 0 then .error (invalidLength (rest.length + 2) "fewer elements in array")
    else return ⟨description, steps⟩

/-- `serde_json::from_value` at `Plan`. -/
def planOfValue (v : Json) : Except String Plan :=
  match v with
  | .object fields => planOfFields jt fields
  | .array items => planOfItems jt items.toList
  | v => .error (invalidType jt v "struct Plan")

/-- Reading a response of `generate_plan`: as a value first, so that the last of repeated keys counts. -/
def parsePlan (text : String) : Except String Plan :=
  match jt.document (String.ofList (slice '\x7b' '\x7d' (unfence text))) with
  | .error e => .error e.message
  | .ok d => planOfValue jt d.value

/-- `serde_json::from_str` at `Vec<String>`. -/
def goalsFromStr (text : String) : Except JsonError (List String) :=
  match jt.document text with
  | .ok (.array items) =>
    match items.toList.mapM Json.asStr with
    | some goals => .ok goals
    | none => .error (jt.goalsError text)
  | _ => .error (jt.goalsError text)

/-- Reading a response of `decompose_request`. -/
def parseGoals (text : String) : Except String (List String) :=
  match goalsFromStr jt (String.ofList (slice '[' ']' (unfence text))) with
  | .error e => .error e.message
  | .ok goals => .ok goals

/-! ### The text around -/

/-- A text in which a bracketed part stands between texts without the bracket that would be mistaken for it. -/
def Framed (opening closing : Char) (mid cs : List Char) : Prop :=
  ∃ pre post, opening ∉ pre ∧ closing ∉ post ∧ cs = pre ++ (opening :: mid ++ [closing]) ++ post

variable {opening closing : Char} {mid cs w : List Char}

theorem Framed.of_prefix (h : Framed opening closing mid (w ++ cs)) (hw : opening ∉ w) :
    Framed opening closing mid cs := by
  obtain ⟨pre, post, hpre, hpost, hcs⟩ := h
  rw [List.append_assoc] at hcs
  rcases List.append_eq_append_iff.mp hcs with ⟨a, rfl, rfl⟩ | ⟨a, rfl, hrest⟩
  · exact ⟨a, post, fun ha => hpre (List.mem_append_right _ ha), hpost, by simp⟩
  · cases a with
    | nil => exact ⟨[], post, List.not_mem_nil, hpost, by simpa using hrest.symm⟩
    | cons c a =>
      -- the part would start within what was taken off
      obtain ⟨rfl, -⟩ := List.cons.inj hrest
      exact absurd (by simp) hw

theorem Framed.of_suffix (h : Framed opening closing mid (cs ++ w)) (hw : closing ∉ w) :
    Framed opening closing mid cs := by
  obtain ⟨pre, post, hpre, hpost, hcs⟩ := h
  rcases List.append_eq_append_iff.mp hcs with ⟨a, hpart, rfl⟩ | ⟨a, rfl, rfl⟩
  · rcases List.eq_nil_or_concat a with rfl | ⟨a, c, rfl⟩
    · exact ⟨pre, [], hpre, List.not_mem_nil, by simpa using hpart.symm⟩
    · have hconcat : (pre ++ opening :: mid) ++ [closing] = (cs ++ a) ++ [c] := by simpa using hpart
      have hc : closing = c := by simpa using (List.append_inj' hconcat rfl).2
      exact absurd (by simp [hc]) hw
  · exact ⟨pre, a, hpre, fun ha => hpost (List.mem_append_left _ ha), rfl⟩

theorem Framed.trim (h : Framed opening closing mid cs) (hopening : isWhitespace opening = false)
    (hclosing : isWhitespace closing = false) : Framed opening closing mid (trim cs) := by
  obtain ⟨w, w', hw, hw', hcs⟩ := exists_trim cs
  rw [hcs, List.append_assoc] at h
  have hwhite : ∀ w c, Blank w → isWhitespace c = false → c ∉ w := by
    intro w c hw hc hmem
    rw [hw c hmem] at hc
    cases hc
  exact (h.of_prefix (hwhite w _ hw hopening)).of_suffix (hwhite w' _ hw' hclosing)

theorem Framed.stripPrefix {p : List Char} (h : Framed opening closing mid cs) (hp : opening ∉ p) :
    Framed opening closing mid (stripPrefix p cs) := by
  unfold Planner.stripPrefix
  by_cases hprefix : p.isPrefixOf cs = true
  · obtain ⟨rest, rfl⟩ := List.isPrefixOf_iff_prefix.mp hprefix
    rw [if_pos hprefix, List.drop_left]
    exact h.of_prefix hp
  · rw [if_neg hprefix]
    exact h

theorem Framed.stripSuffix {p : List Char} (h : Framed opening closing mid cs) (hp : closing ∉ p) :
    Framed opening closing mid (stripSuffix p cs) := by
  unfold Planner.stripSuffix
  by_cases hsuffix : p.isSuffixOf cs = true
  · obtain ⟨rest, rfl⟩ := List.isSuffixOf_iff_suffix.mp hsuffix
    rw [if_pos hsuffix, List.length_append, Nat.add_sub_cancel, List.take_left]
    exact h.of_suffix hp
  · rw [if_neg hsuffix]
    exact h

/-- Neither trimming nor taking off a fence reaches into a part between brackets. -/
theorem Framed.unfence {text : String} (h : Framed opening closing mid text.toList)
    (hopening : isWhitespace opening = false ∧ opening ∉ "```json".toList)
    (hclosing : isWhitespace closing = false ∧ closing ∉ "```".toList) :
    Framed opening closing mid (unfence text) := by
  have hfence : opening ∉ "```".toList := fun hmem => hopening.2 (List.mem_append_left _ hmem)
  have htrim := h.trim hopening.1 hclosing.1
  exact (((htrim.stripPrefix hopening.2).stripPrefix hfence).stripSuffix hclosing.2).trim hopening.1 hclosing.1

theorem findIdx?_of_not_mem {pre rest : List Char} {c : Char} (h : c ∉ pre) :
    (pre ++ c :: rest).findIdx? (· = c) = some pre.length := by
  induction pre with
  | nil => simp [List.findIdx?_cons]
  | cons x pre ih =>
    have hx : x ≠ c := fun hx => h (hx ▸ List.mem_cons_self)
    rw [List.cons_append, List.findIdx?_cons, if_neg (by simpa using hx),
      ih fun hmem => h (List.mem_cons_of_mem _ hmem)]
    rfl

/-- The part between the brackets is what is read. -/
theorem slice_framed (h : Framed opening closing mid cs) : slice opening closing cs = opening :: mid ++ [closing] := by
  obtain ⟨pre, post, hpre, hpost, rfl⟩ := h
  have hstart : (pre ++ (opening :: mid ++ [closing]) ++ post).findIdx? (· = opening) = some pre.length := by
    rw [List.append_assoc]
    exact findIdx?_of_not_mem hpre
  have hend : (pre ++ (opening :: mid ++ [closing]) ++ post).reverse.findIdx? (· = closing) = some post.length := by
    have hrev : (pre ++ (opening :: mid ++ [closing]) ++ post).reverse =
        post.reverse ++ closing :: (mid.reverse ++ opening :: pre.reverse) := by simp
    rw [hrev, findIdx?_of_not_mem fun hmem => hpost (List.mem_reverse.mp hmem), List.length_reverse]
  have hlength : (pre ++ (opening :: mid ++ [closing]) ++ post).length = pre.length + (mid.length + 2) + post.length := by
    simp
    omega
  unfold slice
  rw [hstart, hend, hlength]
  dsimp only
  rw [if_pos (by omega), List.append_assoc, List.drop_left]
  have hcount : pre.length + (mid.length + 2) + post.length - 1 - post.length + 1 - pre.length =
      (opening :: mid ++ [closing]).length := by
    simp only [List.length_cons, List.length_append, List.length_nil]
    omega
  rw [hcount, List.take_left]

/-! ### Plans as they are written down -/

/-- The decimal value of digits, after a number. -/
def decimal (n : Nat) (digits : List Char) : Nat := digits.foldl (fun n c => 10 * n + (c.toNat - '0'.toNat)) n

/-- Digits, perhaps after a plus sign. -/
def Numeral (s : String) (n : Nat) : Prop :=
  ∃ digits, (s.toList = digits ∨ s.toList = '+' :: digits) ∧ digits ≠ [] ∧ (∀ c ∈ digits, c.isDigit = true) ∧
    decimal 0 digits = n

inductive RendersId : Json → Nat → Prop where
  | int (n : Nat) : RendersId (.int n) n
  | string {s n} (h : Numeral s n) : RendersId (.string s) n

/-- A member for an optional value: without one it is missing or `null`. -/
def Shows (member : Option Json) : Option Json → Prop
  | some v => ∃ d, member = some d ∧ d.value = v
  | none => member = none ∨ member = some .null

/-- A document of a step. Of repeated keys the last one is meant. -/
inductive RendersStep : Json → PlanStep → Prop where
  | mk {fields step ids} (hid : fields.last? "id" = some (.int step.id))
      (hdescription : fields.last? "description" = some (.string step.description))
      (htool : Shows (fields.last? "tool") (step.tool.map .string)) (hargs : Shows (fields.last? "args") step.args)
      (hdependsOn : fields.last? "depends_on" = some (.array ids))
      (hids : List.Forall₂ RendersId ids.toList step.dependsOn) : RendersStep (.object fields) step

/-- A document of a plan. -/
inductive RendersPlan : Json → Plan → Prop where
  | mk {fields plan steps} (hdescription : fields.last? "description" = some (.string plan.description))
      (hsteps : fields.last? "steps" = some (.array steps))
      (hrenders : List.Forall₂ RendersStep steps.toList plan.steps) : RendersPlan (.object fields) plan

/-- Ids are `usize`. -/
def StepSized (step : PlanStep) : Prop := step.id < usizeLimit ∧ ∀ n ∈ step.dependsOn, n < usizeLimit

/-- A step without arguments for one whose arguments are `null`. -/
def identifyStep (step : PlanStep) : PlanStep := { step with args := step.args.bind readArgs }

def identify (plan : Plan) : Plan := { plan with steps := plan.steps.map identifyStep }

theorem le_decimal (n : Nat) (digits : List Char) : n ≤ decimal n digits := by
  induction digits generalizing n with
  | nil => exact Nat.le_refl n
  | cons c digits ih =>
    have hrest := ih (10 * n + (c.toNat - '0'.toNat))
    show n ≤ decimal (10 * n + (c.toNat - '0'.toNat)) digits
    omega

theorem readDigits_eq {digits : List Char} {n : Nat} (hdigits : ∀ c ∈ digits, c.isDigit = true)
    (hlimit : decimal n digits < usizeLimit) : readDigits n digits = some (decimal n digits) := by
  induction digits generalizing n with
  | nil => rfl
  | cons c digits ih =>
    obtain ⟨hc, hdigits⟩ := List.forall_mem_cons.mp hdigits
    have hlow := le_decimal (10 * n + (c.toNat - '0'.toNat)) digits
    have hstep : 10 * n + (c.toNat - '0'.toNat) < usizeLimit := Nat.lt_of_le_of_lt hlow hlimit
    rw [readDigits, if_pos (by simpa [hc] using hstep)]
    exact ih hdigits hlimit

theorem parseUsize_numeral {s : String} {n : Nat} (h : Numeral s n) (hn : n < usizeLimit) :
    parseUsize s = some n := by
  obtain ⟨digits, htext, hne, hdigits, rfl⟩ := h
  have hempty : digits.isEmpty = false := by simpa using hne
  have hsign : unsigned s.toList = digits := by
    rcases htext with htext | htext
    · rw [htext]
      cases digits with
      | nil => rfl
      | cons c digits =>
        have hc : c ≠ '+' := by
          rintro rfl
          exact absurd (hdigits '+' List.mem_cons_self) (by decide)
        exact if_neg hc
    · rw [htext, unsigned, if_pos rfl]
  unfold parseUsize
  rw [hsign]
  dsimp only
  rw [hempty]
  exact readDigits_eq hdigits hn

theorem readId_renders {d : Json} {n : Nat} (h : RendersId d n) (hn : n < usizeLimit) :
    readId jt d.value = .ok n := by
  cases h with
  | int => simp [Json.value, readId, hn]
  | string hs => simp [Json.value, readId, parseUsize_numeral hs hn]

/-- A traversal of the values of documents that are read one by one. -/
private theorem mapM_values {α β : Type} {renders : Json → α → Prop} {read : Json → Except String β} {f : α → β}
    {items : JsonItems} {l : List α} (h : List.Forall₂ renders items.toList l)
    (hread : ∀ d, ∀ a ∈ l, renders d a → read d.value = .ok (f a)) :
    items.values.toList.mapM read = .ok (l.map f) := by
  rw [mapM_eq_ok, JsonItems.toList_values, List.forall₂_map_left_iff, List.forall₂_map_right_iff]
  refine List.forall₂_iff_zip.mpr ⟨h.length_eq, fun hmem => ?_⟩
  exact hread _ _ (List.of_mem_zip hmem).2 (List.forall₂_zip h hmem)

theorem readIds_renders {ids : JsonItems} {l : List Nat} (h : List.Forall₂ RendersId ids.toList l)
    (hl : ∀ n ∈ l, n < usizeLimit) : readIds jt (.array ids.values) = .ok l := by
  have hread := mapM_values (f := id) h fun d n hn hd => readId_renders jt hd (hl n hn)
  rw [List.map_id] at hread
  exact hread

theorem optional_tool {member : Option Json} {tool : Option String} (h : Shows member (tool.map .string)) :
    optional (readTool jt) none (member.map Json.value) = .ok tool := by
  cases tool with
  | none =>
    rcases h with rfl | rfl
    · rfl
    · rfl
  | some t =>
    obtain ⟨d, rfl, hd⟩ := h
    simp only [Option.map_some, optional, hd]
    rfl

theorem optional_args {member : Option Json} {args : Option Json} (h : Shows member args) :
    (member.map Json.value).bind readArgs = args.bind readArgs := by
  cases args with
  | none =>
    rcases h with rfl | rfl
    · rfl
    · rfl
  | some v =>
    obtain ⟨d, rfl, hd⟩ := h
    rw [Option.map_some, hd]

theorem stepOfValue_renders {d : Json} {step : PlanStep} (h : RendersStep d step) (hsized : StepSized step) :
    stepOfValue jt d.value = .ok (identifyStep step) := by
  cases h with
  | mk hid hdescription htool hargs hdependsOn hids =>
    have hread := readIds_renders jt hids hsized.2
    have hnumber : readUsize jt (Json.int step.id) = .ok step.id := by simp [readUsize, hsized.1]
    simp only [Json.value, stepOfValue, stepOfFields, JsonFields.get?_value, optional_tool jt htool, optional_args hargs]
    rw [hid, hdescription, hdependsOn]
    simp only [Option.map_some, optional, hread, Json.value, hnumber, readString]
    rfl

theorem planOfValue_renders {d : Json} {plan : Plan} (h : RendersPlan d plan)
    (hsized : ∀ step ∈ plan.steps, StepSized step) : planOfValue jt d.value = .ok (identify plan) := by
  cases h with
  | mk hdescription hsteps hrenders =>
    have hread := mapM_values hrenders fun d step hmem hd => stepOfValue_renders jt hd (hsized step hmem)
    simp only [Json.value, planOfValue, planOfFields, JsonFields.get?_value, hdescription, hsteps]
    simp only [Option.map_some, optional, Json.value, readString, readSteps, hread]
    rfl

/-! ### Plans and goals in a text -/

variable {jt}

theorem parsePlan_framed {text : String} {d : Json} {plan : Plan}
    (hframed : Framed '\x7b' '\x7d' mid text.toList) (h : RendersPlan d plan)
    (hsized : ∀ step ∈ plan.steps, StepSized step)
    (hdocument : jt.document (String.ofList ('\x7b' :: mid ++ ['\x7d'])) = .ok d) :
    parsePlan jt text = .ok (identify plan) := by
  have hinner := hframed.unfence ⟨by decide, by decide⟩ ⟨by decide, by decide⟩
  unfold parsePlan
  rw [slice_framed hinner, hdocument]
  exact planOfValue_renders jt h hsized

theorem parseGoals_framed {text : String} {goals : List String} (hframed : Framed '[' ']' mid text.toList)
    (hdocument : jt.document (String.ofList ('[' :: mid ++ [']'])) = .ok (.ofList (goals.map .string))) :
    parseGoals jt text = .ok goals := by
  have hinner := hframed.unfence ⟨by decide, by decide⟩ ⟨by decide, by decide⟩
  have hgoals : (goals.map Json.string).mapM Json.asStr = some goals := by
    rw [mapM_eq_some, List.forall₂_map_left_iff]
    exact List.forall₂_same.mpr fun s _ => rfl
  unfold parseGoals goalsFromStr
  rw [slice_framed hinner, hdocument]
  simp only [Json.ofList, JsonItems.toList_ofList, hgoals]

/-- A planner returns what it reads from the response. -/
theorem askPlanner_plays {α : Type} {ext : Externals} {depth : Nat} {prompt : Except String String}
    {request what : String} {parse : String → Except String α} {t : List Event} {x : Except Core.AgentError α}
    (h : (askPlanner ext depth prompt request what parse).Plays t x) {q : GenerateRequest} {d : Nat}
    {response : GenerateResponse} (hresponse : (⟨.generate d q, .ok response⟩ : Event) ∈ t) {a : α}
    (hparse : parse response.asText = .ok a) : x = .ok a := by
  unfold askPlanner at h
  cases prompt with
  | error e =>
    obtain ⟨rfl, -⟩ := h
    cases hresponse
  | ok strategyPrompt =>
    dsimp only at h
    unfold checkPromptGuardrail at h
    cases hcheck : ext.checkPrompt strategyPrompt with
    | some msg =>
      rw [hcheck] at h
      obtain ⟨rfl, -⟩ := h
      cases hresponse
    | none =>
      rw [hcheck] at h
      obtain ⟨r, t, rfl, h⟩ := h
      cases r with
      | error e =>
        obtain ⟨rfl, -⟩ := h
        cases List.mem_singleton.mp hresponse
      | ok answer =>
        dsimp only [Prog.bind] at h
        cases hread : parse answer.asText with
        | error e =>
          rw [hread] at h
          obtain ⟨rfl, -⟩ := h
          cases List.mem_singleton.mp hresponse
          rw [hparse] at hread
          cases hread
        | ok b =>
          rw [hread] at h
          obtain ⟨rfl, rfl⟩ := h
          cases List.mem_singleton.mp hresponse
          rw [Except.ok.inj (hread.symm.trans hparse)]

/-- The JSON of a plan is read as the plan from every text around it without an opening brace in front or a closing one
behind, and what `generate_plan` then returns is the plan; likewise for the sub-goals of `decompose_request` and square
brackets. -/
theorem plan_extracted (jt : PlannerTexts) :
    (∀ plan d mid pre post, (∀ step ∈ plan.steps, StepSized step) → RendersPlan d plan →
      jt.document (String.ofList ('\x7b' :: mid ++ ['\x7d'])) = .ok d → '\x7b' ∉ pre → '\x7d' ∉ post →
      ∀ text, text = String.ofList (pre ++ ('\x7b' :: mid ++ ['\x7d']) ++ post) →
      parsePlan jt text = .ok (identify plan) ∧
      ∀ ext depth input tools conversation t x, ext.parsePlan = parsePlan jt →
        (generatePlan ext depth input tools conversation).Plays t x → ∀ n q response,
        (⟨.generate n q, .ok response⟩ : Event) ∈ t → response.asText = text → x = .ok (identify plan)) ∧
    ∀ goals mid pre post, jt.document (String.ofList ('[' :: mid ++ [']'])) = .ok (.ofList (goals.map .string)) →
      '[' ∉ pre → ']' ∉ post → ∀ text, text = String.ofList (pre ++ ('[' :: mid ++ [']']) ++ post) →
      parseGoals jt text = .ok goals ∧
      ∀ ext depth input t x, ext.parseGoals = parseGoals jt → (decomposeRequest ext depth input).Plays t x →
        ∀ n q response, (⟨.generate n q, .ok response⟩ : Event) ∈ t → response.asText = text → x = .ok goals := by
  constructor
  · rintro plan d mid pre post hsized hrenders hdocument hpre hpost text rfl
    have hparse := parsePlan_framed ⟨pre, post, hpre, hpost, String.toList_ofList⟩ hrenders hsized hdocument
    refine ⟨hparse, fun ext depth input tools conversation t x hext hplays n q response hmem htext => ?_⟩
    refine askPlanner_plays hplays hmem ?_
    rw [hext, htext, hparse]
  · rintro goals mid pre post hdocument hpre hpost text rfl
    have hparse := parseGoals_framed ⟨pre, post, hpre, hpost, String.toList_ofList⟩ hdocument
    refine ⟨hparse, fun ext depth input t x hext hplays n q response hmem htext => ?_⟩
    refine askPlanner_plays hplays hmem ?_
    rw [hext, htext, hparse]

/-- A fenced plan with a repeated key, a numeric string and a brace in a string. -/
theorem plan_extracted_fenced :
    let step : JsonFields := .cons "id" (.int 1) (.cons "description" (.string "\x7d") (.cons "tool" .null
      (.cons "args" (.int 7) (.cons "args" .null (.cons "depends_on" (.ofList [.string "+0", .int 2]) .nil)))))
    let d : Json := .object (.cons "description" (.string "p") (.cons "steps" (.ofList [.object step]) .nil))
    let mid := "\"description\":\"p\",\"steps\":[\x7b\"id\":1,\"description\":\"\x7d\",\"tool\":null,\"args\":7," ++
      "\"args\":null,\"depends_on\":[\"+0\",2]\x7d]"
    let text := String.ofList ("Plan: ```json\n".toList ++ ('\x7b' :: mid.toList ++ ['\x7d']) ++ "\n``` ".toList)
    let jt : PlannerTexts := ⟨⟨fun _ => text, fun _ => .ok d⟩, fun _ => "", String.quote, fun _ => "", fun _ => ⟨""⟩⟩
    parsePlan jt text = .ok ⟨"p", [⟨1, "\x7d", none, none, [0, 2]⟩]⟩ := by
  intro step d mid text jt
  refine ((plan_extracted jt).1 ⟨"p", [⟨1, "\x7d", none, some .null, [0, 2]⟩]⟩ d mid.toList "Plan: ```json\n".toList
    "\n``` ".toList ?_ ?_ rfl (by decide) (by decide) text rfl).1
  · exact List.forall_mem_singleton.mpr ⟨by decide, by decide⟩
  · refine .mk rfl rfl (.cons (.mk rfl rfl (.inr rfl) ⟨.null, rfl, rfl⟩ rfl ?_) .nil)
    exact .cons (.string ⟨['0'], .inr rfl, by decide, by decide, rfl⟩) (.cons (.int 2) .nil)

end Planner

end AgentVerse
