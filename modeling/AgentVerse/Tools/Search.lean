import AgentVerse.Effects.Keyed
import AgentVerse.Tools.Registry
import AgentVerse.Tools.SearchIndex

/-!
# Tool search

A registry keeps its tools by name, and next to them the index that `search` reads. Registering a name again replaces
the tool, but the index can only grow: it has the current document of every tool (`current_subperm`), and nothing
else exactly if no registration replaced a tool. Copies are built anew, so that only a name which is given twice
brings a second document. While the index matches the tools, a search finds every tool at most once and by words of
its current name or description.
-/

namespace AgentVerse

open Effects

inductive ExecutionMode where
  | inline
  | background
  deriving DecidableEq

structure ToolOptions where
  category : Option String
  executionMode : ExecutionMode
  deriving DecidableEq

def ToolOptions.default : ToolOptions := ⟨none, .inline⟩

structure SearchableTool where
  name : String
  description : String
  schema : Json

structure ToolEntry where
  tool : SearchableTool
  options : ToolOptions

/-- What stands in the index for a tool. -/
def SearchableTool.text (t : SearchableTool) : String := t.name ++ " " ++ t.description

structure ToolInfo (F : Type) where
  name : String
  description : String
  schema : Json
  score : F

/-- A registry with its index. The tools are in the order in which the map iterates over them. -/
structure SearchRegistry where
  tools : List ToolEntry
  nodup : (tools.map (·.tool.name)).Nodup
  index : BM25Index

namespace SearchRegistry

variable (u : Unicode) (reg : SearchRegistry)

def empty : SearchRegistry := ⟨[], List.nodup_nil, .new⟩

def get (name : String) : Option ToolEntry := reg.tools.find? fun e => e.tool.name = name

def hasTool (name : String) : Bool := reg.tools.any fun e => e.tool.name = name

/-- Insert into the map, which replaces an entry of the same name, and into the index. -/
def insert (entry : ToolEntry) : SearchRegistry where
  tools := (reg.tools.filter fun e => e.tool.name ≠ entry.tool.name) ++ [entry]
  nodup := by
    rw [List.map_append, List.nodup_append]
    refine ⟨reg.nodup.sublist (List.filter_sublist.map _), List.nodup_singleton _, ?_⟩
    rintro _ ha _ hb rfl
    obtain ⟨e, he, hname⟩ := List.mem_map.mp ha
    have hne : e.tool.name ≠ entry.tool.name := of_decide_eq_true (List.mem_filter.mp he).2
    exact hne (hname.trans (List.mem_singleton.mp hb))
  index := reg.index.insert u entry.tool.name entry.tool.text

def registerWithOptions (tool : SearchableTool) (opts : ToolOptions) : SearchRegistry := reg.insert u ⟨tool, opts⟩

def register (tool : SearchableTool) : SearchRegistry := reg.registerWithOptions u tool .default

/-- Register a tool only when its name is absent, returning whether it was inserted. -/
def registerIfAbsent (tool : SearchableTool) : Bool × SearchRegistry :=
  if reg.hasTool tool.name then (false, reg) else (true, reg.insert u ⟨tool, .default⟩)

def registerErased (tool : SearchableTool) (opts : ToolOptions) : SearchRegistry := reg.insert u ⟨tool, opts⟩

/-- `FindToolsTool`; its schema is generated. -/
def findTools (schema : Json) : SearchableTool :=
  ⟨"find_tools", "Search the tool registry by keyword to discover available tools and their capabilities", schema⟩

/-- Create a registry with `find_tools` pre-registered. -/
def new (schema : Json) : SearchRegistry := empty.register u (findTools schema)

def search {F : Type} [F32 F] (query : String) (limit : Nat) : List (ToolInfo F) :=
  (reg.index.search u query limit).filterMap fun hit =>
    (reg.get hit.1).map fun e => ⟨hit.1, e.tool.description, e.tool.schema, hit.2⟩

/-- A new registry of the tools with the given category. -/
def filterCategory (category : String) : SearchRegistry :=
  reg.tools.foldl (fun copy e => if e.options.category = some category then copy.insert u e else copy) empty

def copyNamedTools (names : List String) (excludeSubagentSpawner : Bool) : SearchRegistry :=
  names.foldl (fun copy name =>
    if excludeSubagentSpawner && name = spawnSubagentToolName then copy
    else
      match reg.get name with
      | some e => copy.insert u e
      | none => copy) empty

def restrictedToNames (names : List String) : SearchRegistry := reg.copyNamedTools u names false

def filterByNames (names : List String) : SearchRegistry := reg.copyNamedTools u names true

end SearchRegistry

/-! ### Registrations -/

/-- A call that may register a tool. -/
inductive Registration where
  | register (tool : SearchableTool)
  | registerWithOptions (tool : SearchableTool) (opts : ToolOptions)
  | registerIfAbsent (tool : SearchableTool)
  | registerErased (tool : SearchableTool) (opts : ToolOptions)

namespace Registration

def tool : Registration → SearchableTool
  | register t | registerWithOptions t _ | registerIfAbsent t | registerErased t _ => t

/-- The call replaces a tool of the same name. -/
def replaces : Registration → Bool
  | registerIfAbsent _ => false
  | _ => true

/-- What is inserted. -/
def entry : Registration → ToolEntry
  | register t | registerIfAbsent t => ⟨t, .default⟩
  | registerWithOptions t opts | registerErased t opts => ⟨t, opts⟩

def apply (u : Unicode) (reg : SearchRegistry) : Registration → SearchRegistry
  | register t => reg.register u t
  | registerWithOptions t opts => reg.registerWithOptions u t opts
  | registerIfAbsent t => (reg.registerIfAbsent u t).2
  | registerErased t opts => reg.registerErased u t opts

end Registration

namespace SearchRegistry

/-- The registry after some calls. -/
def registerAll (u : Unicode) (reg : SearchRegistry) (calls : List Registration) : SearchRegistry :=
  calls.foldl (Registration.apply u) reg

/-- The documents of the registered tools. -/
def documents (u : Unicode) (reg : SearchRegistry) : List (String × List String) :=
  reg.tools.map fun e => (e.tool.name, tokenize u e.tool.text)

/-- The index has one document for each tool, made from its name and description, and counts their tokens. -/
structure Matches (u : Unicode) (reg : SearchRegistry) : Prop where
  docs : reg.index.docs.Perm (reg.documents u)
  df : reg.index.Counts

variable {u : Unicode} {reg : SearchRegistry} {entry : ToolEntry} {name : String}

theorem hasTool_iff : reg.hasTool name = true ↔ name ∈ reg.tools.map (·.tool.name) := by
  unfold hasTool
  simp only [List.any_eq_true, decide_eq_true_eq, List.mem_map]

theorem get_some {e : ToolEntry} (h : reg.get name = some e) : e ∈ reg.tools ∧ e.tool.name = name :=
  ⟨List.mem_of_find?_eq_some h, by simpa using List.find?_some h⟩

/-- Entries of one name are the same. -/
theorem get_of_mem {e : ToolEntry} (h : e ∈ reg.tools) : reg.get e.tool.name = some e := by
  unfold get
  have hone : reg.tools.filter (fun e' => e'.tool.name = e.tool.name) = [e] := filter_key_eq reg.nodup h
  rw [← List.head?_filter, hone, List.head?_cons]

/-! ### Inserting a tool -/

theorem hasTool_insert :
    (reg.insert u entry).hasTool name = true ↔ name = entry.tool.name ∨ reg.hasTool name = true := by
  simp only [hasTool_iff, insert, List.map_append, List.mem_append, List.mem_map, List.mem_filter, List.mem_singleton,
    decide_eq_true_eq]
  constructor
  · rintro (⟨e, ⟨he, _⟩, rfl⟩ | ⟨e, rfl, rfl⟩)
    · exact .inr ⟨e, he, rfl⟩
    · exact .inl rfl
  · rintro (rfl | ⟨e, he, rfl⟩)
    · exact .inr ⟨entry, rfl, rfl⟩
    · by_cases hname : e.tool.name = entry.tool.name
      · exact .inr ⟨entry, rfl, hname.symm⟩
      · exact .inl ⟨e, ⟨he, hname⟩, rfl⟩

theorem length_insert : (reg.insert u entry).tools.length + (if reg.hasTool entry.tool.name then 1 else 0) =
    reg.tools.length + 1 := by
  unfold insert
  dsimp only
  rw [List.length_append, List.length_singleton]
  by_cases h : reg.hasTool entry.tool.name = true
  · obtain ⟨e, he, hname⟩ := List.mem_map.mp (hasTool_iff.mp h)
    have hperm : reg.tools.Perm (e :: reg.tools.filter fun e' => e'.tool.name ≠ e.tool.name) :=
      perm_front reg.nodup he
    have hlen := hperm.length_eq
    rw [if_pos h, hlen, List.length_cons, hname]
  · have hall : reg.tools.filter (fun e => e.tool.name ≠ entry.tool.name) = reg.tools := by
      refine List.filter_eq_self.mpr fun e he => decide_eq_true fun hname => h (hasTool_iff.mpr ?_)
      exact List.mem_map.mpr ⟨e, he, hname⟩
    rw [if_neg h, hall]

/-- The index has the current document of every tool, among others. -/
structure Covers (u : Unicode) (reg : SearchRegistry) : Prop where
  docs : (reg.documents u).Subperm reg.index.docs
  df : reg.index.Counts

theorem covers_empty : empty.Covers u := ⟨List.Subperm.refl _, BM25Index.counts_new⟩

theorem Covers.insert (h : reg.Covers u) : (reg.insert u entry).Covers u := by
  refine ⟨?_, h.df.insert⟩
  have hkept : (reg.tools.filter fun e => e.tool.name ≠ entry.tool.name).map
      (fun e => (e.tool.name, tokenize u e.tool.text)) |>.Subperm reg.index.docs :=
    (List.filter_sublist.map _).subperm.trans h.docs
  unfold documents SearchRegistry.insert BM25Index.insert
  rw [List.map_append]
  exact (List.subperm_append_right _).mpr hkept

theorem Covers.length_le (h : reg.Covers u) : reg.tools.length ≤ reg.index.docs.length := by
  have hle := h.docs.length_le
  rwa [documents, List.length_map] at hle

/-- Nothing else is in the index exactly if it has as many documents as there are tools. -/
theorem Covers.matches_iff (h : reg.Covers u) : reg.Matches u ↔ reg.index.docs.length ≤ reg.tools.length := by
  constructor
  · intro hm
    rw [hm.docs.length_eq, documents, List.length_map]
  · intro hle
    refine ⟨(h.docs.perm_of_length_le ?_).symm, h.df⟩
    rwa [documents, List.length_map]

/-- The index still matches after an insertion exactly if it has matched before and the name is new. -/
theorem Covers.insert_matches (h : reg.Covers u) :
    (reg.insert u entry).Matches u ↔ reg.Matches u ∧ ¬ reg.hasTool entry.tool.name = true := by
  have hdocs : (reg.insert u entry).index.docs.length = reg.index.docs.length + 1 := by
    unfold SearchRegistry.insert BM25Index.insert
    rw [List.length_append, List.length_singleton]
  have htools : (reg.insert u entry).tools.length + _ = _ := length_insert
  have hle := h.length_le
  rw [h.insert.matches_iff, h.matches_iff, hdocs]
  by_cases hhas : reg.hasTool entry.tool.name = true
  · rw [if_pos hhas] at htools
    exact ⟨fun hlen => by omega, fun hlen => absurd hhas hlen.2⟩
  · rw [if_neg hhas] at htools
    exact ⟨fun hlen => ⟨by omega, hhas⟩, fun hlen => by omega⟩

/-! ### Runs -/

variable {call : Registration} {calls : List Registration}

/-- A call inserts its entry, unless it must not replace the tool that is there. -/
theorem apply_eq : call.apply u reg =
    if call.replaces = false ∧ reg.hasTool call.tool.name = true then reg else reg.insert u call.entry := by
  cases call with
  | registerIfAbsent t =>
    simp only [Registration.apply, registerIfAbsent, Registration.replaces, Registration.tool, true_and]
    split
    · rfl
    · rfl
  | _ => exact (if_neg (by simp [Registration.replaces])).symm

theorem entry_tool : call.entry.tool = call.tool := by cases call <;> rfl

theorem hasTool_apply :
    (call.apply u reg).hasTool name = true ↔ name = call.tool.name ∨ reg.hasTool name = true := by
  rw [apply_eq]
  split
  · next h => exact ⟨.inr, fun hor => hor.elim (fun heq => heq ▸ h.2) id⟩
  · rw [hasTool_insert, entry_tool]

theorem Covers.apply (h : reg.Covers u) : (call.apply u reg).Covers u := by
  rw [apply_eq]
  split
  · exact h
  · exact h.insert

theorem Covers.apply_matches (h : reg.Covers u) : (call.apply u reg).Matches u ↔
    reg.Matches u ∧ (call.replaces = true → ¬ reg.hasTool call.tool.name = true) := by
  rw [apply_eq]
  split
  · next hkeep => exact ⟨fun hm => ⟨hm, fun hr => absurd (hkeep.1.symm.trans hr) Bool.false_ne_true⟩, fun hm => hm.1⟩
  · next hinsert =>
    rw [h.insert_matches, entry_tool]
    by_cases hr : call.replaces = true
    · exact and_congr_right fun _ => ⟨fun hnew _ => hnew, fun hnew => hnew hr⟩
    · have hnew : ¬ reg.hasTool call.tool.name = true := fun hhas => hinsert ⟨Bool.eq_false_iff.mpr hr, hhas⟩
      exact and_congr_right fun _ => ⟨fun _ _ => hnew, fun _ => hnew⟩

/-- No call replaces the tool of an earlier one. -/
def Registration.Distinct (calls : List Registration) : Prop :=
  calls.Pairwise fun call later => later.replaces = true → call.tool.name ≠ later.tool.name

theorem Covers.registerAll (h : reg.Covers u) : (reg.registerAll u calls).Covers u := by
  induction calls generalizing reg with
  | nil => exact h
  | cons call calls ih => exact ih h.apply

/-- The index still matches after some calls exactly if none of them replaces a tool. -/
theorem Covers.registerAll_matches (h : reg.Covers u) : (reg.registerAll u calls).Matches u ↔
    reg.Matches u ∧ (∀ call ∈ calls, call.replaces = true → ¬ reg.hasTool call.tool.name = true) ∧
      Registration.Distinct calls := by
  induction calls generalizing reg with
  | nil => exact ⟨fun hm => ⟨hm, by simp, .nil⟩, fun hm => hm.1⟩
  | cons call calls ih =>
    have hrest : (reg.registerAll u (call :: calls)).Matches u ↔ ((call.apply u reg).registerAll u calls).Matches u :=
      Iff.rfl
    rw [hrest, ih h.apply, h.apply_matches]
    simp only [Registration.Distinct, List.pairwise_cons, List.forall_mem_cons, hasTool_apply, not_or]
    constructor
    · rintro ⟨⟨hm, hcall⟩, hnew, hdistinct⟩
      exact ⟨hm, ⟨hcall, fun c hc hr => (hnew c hc hr).2⟩, fun c hc hr heq => (hnew c hc hr).1 heq.symm, hdistinct⟩
    · rintro ⟨hm, ⟨hcall, hnew⟩, hne, hdistinct⟩
      exact ⟨⟨hm, hcall⟩, fun c hc hr => ⟨fun heq => hne c hc hr heq.symm, hnew c hc hr⟩, hdistinct⟩

theorem registerAll_empty_matches : (empty.registerAll u calls).Matches u ↔ Registration.Distinct calls := by
  have hempty : empty.Matches u := covers_empty.matches_iff.mpr (Nat.le_refl 0)
  rw [covers_empty.registerAll_matches]
  exact ⟨fun h => h.2.2, fun h => ⟨hempty, fun _ _ _ => Bool.false_ne_true, h⟩⟩

/-! ### Copies -/

/-- The calls that register entries as they are. -/
def copied (entries : List ToolEntry) : List Registration := entries.map fun e => .registerErased e.tool e.options

theorem distinct_copied {entries : List ToolEntry} :
    Registration.Distinct (copied entries) ↔ (entries.map (·.tool.name)).Nodup := by
  unfold Registration.Distinct copied List.Nodup
  simp only [List.pairwise_map, Registration.replaces, Registration.tool, forall_const]

/-- A loop that inserts what `f` selects. -/
theorem foldl_insert {α : Type} {step : SearchRegistry → α → SearchRegistry} {f : α → Option ToolEntry}
    (hstep : ∀ copy x, step copy x = (f x).elim copy (copy.insert u)) (xs : List α) (copy : SearchRegistry) :
    xs.foldl step copy = copy.registerAll u (copied (xs.filterMap f)) := by
  induction xs generalizing copy with
  | nil => rfl
  | cons x xs ih =>
    rw [List.foldl_cons, hstep, ih]
    cases hx : f x with
    | none => rw [List.filterMap_cons_none hx]; rfl
    | some e => rw [List.filterMap_cons_some hx]; rfl

/-- The entry that a copy takes over for a name. -/
def selected (reg : SearchRegistry) (excludeSubagentSpawner : Bool) (name : String) : Option ToolEntry :=
  if excludeSubagentSpawner && name = spawnSubagentToolName then none else reg.get name

theorem copyNamedTools_eq (names : List String) (excl : Bool) :
    reg.copyNamedTools u names excl = empty.registerAll u (copied (names.filterMap (reg.selected excl))) := by
  refine foldl_insert (fun copy name => ?_) names empty
  unfold selected
  split
  · rfl
  · cases reg.get name <;> rfl

theorem filterCategory_eq (category : String) : reg.filterCategory u category =
    empty.registerAll u (copied (reg.tools.filter fun e => e.options.category = some category)) := by
  rw [← List.filterMap_eq_filter]
  refine foldl_insert (fun copy e => ?_) reg.tools empty
  by_cases h : e.options.category = some category
  · simp [h, Option.guard]
  · simp [h, Option.guard]

theorem selected_names (names : List String) (excl : Bool) :
    (names.filterMap (reg.selected excl)).map (·.tool.name) =
      names.filter fun name => !(excl && name = spawnSubagentToolName) && reg.hasTool name := by
  have hname : ∀ name, (reg.selected excl name).map (·.tool.name) =
      if !(excl && name = spawnSubagentToolName) && reg.hasTool name then some name else none := by
    intro name
    unfold selected
    by_cases hexcl : (excl && name = spawnSubagentToolName) = true
    · simp [hexcl]
    · rw [if_neg hexcl, Bool.eq_false_iff.mpr hexcl, Bool.not_false, Bool.true_and]
      cases hget : reg.get name with
      | some e =>
        obtain ⟨he, rfl⟩ := get_some hget
        have hhas : reg.hasTool e.tool.name = true := hasTool_iff.mpr (List.mem_map_of_mem he)
        rw [if_pos hhas, Option.map_some]
      | none =>
        have hnot : ¬ reg.hasTool name = true := by
          intro hhas
          obtain ⟨e, he, rfl⟩ := List.mem_map.mp (hasTool_iff.mp hhas)
          rw [get_of_mem he] at hget
          cases hget
        rw [if_neg hnot, Option.map_none]
  rw [List.map_filterMap, ← List.filterMap_eq_filter]
  exact List.filterMap_congr fun name _ => by rw [hname]; rfl

/-- A copy matches exactly if no name that it takes over is given twice. -/
theorem copyNamedTools_matches (names : List String) (excl : Bool) : (reg.copyNamedTools u names excl).Matches u ↔
    (names.filter fun name => !(excl && name = spawnSubagentToolName) && reg.hasTool name).Nodup := by
  rw [copyNamedTools_eq, registerAll_empty_matches, distinct_copied, selected_names]

theorem filterCategory_matches (category : String) : (reg.filterCategory u category).Matches u := by
  rw [filterCategory_eq, registerAll_empty_matches, distinct_copied]
  exact reg.nodup.sublist (List.filter_sublist.map _)

/-! ### Searching -/

section Searching

variable {F : Type} [F32 F] {query : String} {limit : Nat}

theorem mem_search {info : ToolInfo F} (h : info ∈ reg.search u query limit) :
    ∃ hit ∈ (reg.index.search u query limit : List (String × F)), ∃ e, reg.get hit.1 = some e ∧
      info = ⟨hit.1, e.tool.description, e.tool.schema, hit.2⟩ := by
  obtain ⟨hit, hhit, hinfo⟩ := List.mem_filterMap.mp h
  obtain ⟨e, he, rfl⟩ := Option.map_eq_some_iff.mp hinfo
  exact ⟨hit, hhit, e, he, rfl⟩

/-- A search finds names at most as often as the index does. -/
theorem search_names : ((reg.search u query limit : List (ToolInfo F)).map (·.name)).Sublist
    ((reg.index.search u query limit : List (String × F)).map (·.1)) := by
  unfold search
  induction (reg.index.search u query limit : List (String × F)) with
  | nil => exact .refl _
  | cons hit hits ih =>
    cases hget : reg.get hit.1 with
    | none =>
      rw [List.filterMap_cons_none (by rw [hget]; rfl)]
      exact ih.cons _
    | some e =>
      rw [List.filterMap_cons_some (by rw [hget]; rfl)]
      exact ih.cons_cons _

theorem Matches.search_nodup (h : reg.Matches u) :
    ((reg.search u query limit : List (ToolInfo F)).map (·.name)).Nodup := by
  refine search_names.nodup (BM25Index.search_nodup ?_)
  rw [(h.docs.map _).nodup_iff, documents, List.map_map]
  exact reg.nodup

/-- What is found is found by a word of its current name or description. -/
theorem Matches.search_current (h : reg.Matches u) {info : ToolInfo F} (hinfo : info ∈ reg.search u query limit) :
    ∃ e, reg.get info.name = some e ∧ info.description = e.tool.description ∧ info.schema = e.tool.schema ∧
      ∃ token ∈ tokenize u query, token ∈ tokenize u e.tool.text := by
  obtain ⟨hit, hhit, e, he, rfl⟩ := mem_search hinfo
  obtain ⟨d, hd, hname, token, htoken, hmem⟩ := BM25Index.mem_search hhit
  obtain ⟨e', he', rfl⟩ := List.mem_map.mp (h.docs.mem_iff.mp hd)
  have heq : e = e' := by
    have hget := get_of_mem he'
    rw [← show hit.1 = e'.tool.name from hname, he] at hget
    exact Option.some.inj hget
  exact ⟨e, he, rfl, rfl, token, htoken, heq ▸ hmem⟩

end Searching

/-- The index matches the tools after some registrations exactly if none of them replaces a tool, and in a copy exactly
if no name is taken over twice. While it does, a search finds every tool at most once, and by its current words. -/
theorem index_matches_iff (u : Unicode) (schema : Json) (F : Type) [F32 F] :
    (∀ calls, ((new u schema).registerAll u calls).Matches u ↔
      Registration.Distinct (.register (findTools schema) :: calls)) ∧
    (∀ (reg : SearchRegistry) (names : List String),
      ((reg.restrictedToNames u names).Matches u ↔ (names.filter reg.hasTool).Nodup) ∧
      ((reg.filterByNames u names).Matches u ↔
        (names.filter fun name => name ≠ spawnSubagentToolName && reg.hasTool name).Nodup)) ∧
    (∀ (reg : SearchRegistry) (category : String), (reg.filterCategory u category).Matches u) ∧
    ∀ reg : SearchRegistry, reg.Matches u → ∀ query limit,
      ((reg.search u query limit : List (ToolInfo F)).map (·.name)).Nodup ∧
      ∀ info ∈ (reg.search u query limit : List (ToolInfo F)), ∃ e, reg.get info.name = some e ∧
        info.description = e.tool.description ∧ info.schema = e.tool.schema ∧
        ∃ token ∈ tokenize u query, token ∈ tokenize u e.tool.text := by
  refine ⟨fun calls => ?_, fun reg names => ⟨?_, ?_⟩, fun reg => reg.filterCategory_matches,
    fun reg h query limit => ⟨h.search_nodup, fun info => h.search_current⟩⟩
  · exact @registerAll_empty_matches u (.register (findTools schema) :: calls)
  · rw [restrictedToNames, copyNamedTools_matches]
    simp only [Bool.false_and, Bool.not_false, Bool.true_and]
  · rw [filterByNames, copyNamedTools_matches]
    simp only [Bool.true_and, ne_eq, decide_not]

/-- A tool that is registered again with another description has both descriptions in the index. -/
theorem replaced_description_kept : ∃ (reg : SearchRegistry) (t : SearchableTool),
    reg = (new .ascii .null).registerAll .ascii [.register ⟨"lookup", "old", .null⟩, .register t] ∧
    reg.get "lookup" = some ⟨t, .default⟩ ∧ "old" ∉ tokenize .ascii t.text ∧
    ("lookup", ["lookup", "old"]) ∈ reg.index.docs ∧ ¬ reg.Matches .ascii := by
  refine ⟨_, ⟨"lookup", "new", .null⟩, rfl, rfl, by decide, by decide, fun h => ?_⟩
  exact absurd h.docs.length_eq (by decide)

end SearchRegistry

end AgentVerse
