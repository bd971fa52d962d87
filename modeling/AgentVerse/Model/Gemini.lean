import AgentVerse.Core.Json
import AgentVerse.Effects.Notes
import AgentVerse.Model.Breaker

/-!
# The Gemini provider

`build_request` and `parse_response` of a provider of texts only. A response body is seen through `serde_json::from_str`
at the type of responses. What a chain of managers makes of its providers (`Served`): a request goes out as its manager's
provider built it, one that cannot be built ends the call at once, and an answer is what the provider read. A Gemini
manager that its breaker lets pass thus ends every call with tools, whatever fallback it has (`gemini_textual`).
-/

namespace AgentVerse

open Effects Prog

namespace GeminiProvider

/-! ### The wire types -/

structure GeminiPart where
  text : String

structure GeminiContent where
  role : String
  parts : List GeminiPart

structure GeminiFunction where
  name : String
  description : String
  parameters : Json

structure GeminiRequest where
  systemInstruction : Option (List GeminiPart)
  contents : List GeminiContent
  tools : Option (List (List GeminiFunction))

structure GeminiResponse where
  /-- The content of each candidate. -/
  candidates : List GeminiContent

def GeminiPart.toValue (part : GeminiPart) : Json := .object (Json.record [("text", some (.string part.text))])

def GeminiContent.toValue (c : GeminiContent) : Json :=
  .object (Json.record [("role", some (.string c.role)), ("parts", some (.ofList (c.parts.map (·.toValue))))])

def GeminiFunction.toValue (f : GeminiFunction) : Json :=
  .object (Json.record [("name", some (.string f.name)), ("description", some (.string f.description)),
    ("parameters", some f.parameters)])

def GeminiRequest.toValue (req : GeminiRequest) : Json :=
  .object (Json.record [
    ("system_instruction", req.systemInstruction.map fun parts =>
      .object (Json.record [("parts", some (.ofList (parts.map (·.toValue))))])),
    ("contents", some (.ofList (req.contents.map (·.toValue)))),
    ("tools", req.tools.map fun configs => .ofList (configs.map fun functions =>
      .object (Json.record [("functions", some (.ofList (functions.map (·.toValue))))])))])

/-! ### Requests and responses -/

def unsupportedTools : ModelError :=
  .invalidResponse ("GeminiProvider does not support native tool-calling (request.tools) — " ++
    "Gemini is out of scope for this project's strict tool-calling support")

def unsupportedBlocks : ModelError :=
  .invalidResponse ("GeminiProvider does not support native tool-calling content blocks " ++
    "(ToolUse/ToolResult) — only Text blocks are supported")

def isText : ContentBlock → Bool
  | .text _ => true
  | _ => false

/-- The role of a message, unless the message is left out. -/
def mapRole : MessageRole → Option String
  | .user => some "user"
  | .assistant => some "model"
  | .tool => some "user"
  | .system => none

def wireRequest (request : GenerateRequest) : GeminiRequest where
  systemInstruction := request.system.map fun s => [⟨s⟩]
  contents := request.messages.filterMap fun m => (mapRole m.role).map fun role => ⟨role, [⟨m.asText⟩]⟩
  tools := request.tools.map fun tools => [tools.map fun tool => ⟨tool.name, tool.description, tool.parameters⟩]

def buildRequest (_model : String) (request : GenerateRequest) : Except ModelError Json :=
  if request.tools.isSome then .error unsupportedTools
  else if request.messages.any fun m => m.content.any fun b => !isText b then .error unsupportedBlocks
  else .ok (wireRequest request).toValue

/-- `read` is `serde_json::from_str` at the type of responses. -/
def parseResponse (read : String → Except String GeminiResponse) (body : String) :
    Except ModelError GenerateResponse :=
  match read body with
  | .error e => .error (.invalidResponse e)
  | .ok resp =>
    match resp.candidates.head?.bind fun content => content.parts.head? with
    | some part => .ok ⟨[.text part.text], .zero⟩
    | none => .error (.invalidResponse "No content in response")

def provider (read : String → Except String GeminiResponse) : ModelProvider where
  name := "gemini"
  buildRequest := buildRequest
  parseResponse := parseResponse read
  requestHeaders _ := []
  endpointPath model := "/v1beta/models/" ++ model ++ ":generateContent"

end GeminiProvider

/-- A request that offers no tools, of messages that are only text. -/
structure GenerateRequest.Textual (req : GenerateRequest) : Prop where
  toolless : req.tools = none
  texts : ∀ m ∈ req.messages, ∀ b ∈ m.content, ∃ text, b = .text text

/-- An answer of one text, which counts no tokens. -/
def GenerateResponse.Textual (resp : GenerateResponse) : Prop := ∃ text, resp = ⟨[.text text], .zero⟩

namespace GeminiProvider

variable {read : String → Except String GeminiResponse} {body : String} {req : GenerateRequest}

/-- The error of a request that is not text. -/
def refusal (req : GenerateRequest) : ModelError := if req.tools.isSome then unsupportedTools else unsupportedBlocks

theorem isText_iff {b : ContentBlock} : isText b = true ↔ ∃ text, b = .text text := by
  cases b with
  | text text => exact ⟨fun _ => ⟨text, rfl⟩, fun _ => rfl⟩
  | toolUse | toolResult => exact ⟨fun h => (by cases h), fun ⟨_, h⟩ => (by cases h)⟩

theorem textual_of_built (model : String) {v : Json} (h : buildRequest model req = .ok v) : req.Textual := by
  unfold buildRequest at h
  split at h
  · cases h
  · rename_i htools
    split at h
    · cases h
    · rename_i hblocks
      refine ⟨by simpa using htools, fun m hm b hb => ?_⟩
      by_contra hb'
      refine hblocks (List.any_eq_true.mpr ⟨m, hm, List.any_eq_true.mpr ⟨b, hb, ?_⟩⟩)
      rw [Bool.not_eq_true', Bool.eq_false_iff]
      exact fun h => hb' (isText_iff.mp h)

theorem refused (model : String) (h : ¬ req.Textual) : buildRequest model req = .error (refusal req) := by
  unfold buildRequest refusal
  by_cases htools : req.tools.isSome = true
  · rw [if_pos htools, if_pos htools]
  · rw [if_neg htools, if_neg htools]
    refine if_pos ?_
    by_contra hblocks
    refine h ⟨by simpa using htools, fun m hm b hb => ?_⟩
    rw [← isText_iff]
    by_contra hb'
    exact hblocks (List.any_eq_true.mpr ⟨m, hm, List.any_eq_true.mpr ⟨b, hb, by simpa using hb'⟩⟩)

theorem textual_of_parsed {resp : GenerateResponse} (h : parseResponse read body = .ok resp) : resp.Textual := by
  unfold parseResponse at h
  split at h
  · cases h
  · split at h
    · obtain rfl := Except.ok.inj h
      exact ⟨_, rfl⟩
    · cases h

end GeminiProvider

/-! ### What a chain makes of its providers -/

/-- A call of the managers `cs`, the first of which has `depth` managers before it, that asked `t` and ended with `x`. -/
structure Served (cs : List Connection) (depth : Nat) (req : GenerateRequest) (t : List Http.Event)
    (x : Except ModelError GenerateResponse) : Prop where
  sent : ∀ k post r, (⟨.send k post, r⟩ : Http.Event) ∈ t → ∃ j c body, k = depth + j ∧ cs[j]? = some c ∧
    c.provider.buildRequest c.modelName req = .ok body ∧ post = c.post body
  admitted : ∀ pre k b rest, t = pre ++ (⟨.canExecute k b, true⟩ : Http.Event) :: rest → ∃ j c, k = depth + j ∧
    cs[j]? = some c ∧ ∀ e, c.provider.buildRequest c.modelName req = .error e → x = .error e ∧ rest = []
  answered : ∀ resp, x = .ok resp → ∃ j c built body, cs[j]? = some c ∧
    c.provider.buildRequest c.modelName req = .ok built ∧
    (⟨.readBody (depth + j), .ok body⟩ : Http.Event) ∈ t ∧ c.provider.parseResponse body = .ok resp

/-- A request that reaches no endpoint and no breaker that lets it pass. -/
def Http.idle : Event → Bool
  | ⟨.send .., _⟩ => false
  | ⟨.canExecute .., allowed⟩ => !allowed
  | _ => true

namespace Served

variable {c : Connection} {cs : List Connection} {depth : Nat} {req : GenerateRequest} {t : List Http.Event}
  {x : Except ModelError GenerateResponse}

/-- One more request at the beginning. -/
theorem cons (h : Served cs depth req t x) {e : Http.Event}
    (hsent : ∀ k post r, e = ⟨.send k post, r⟩ → ∃ j c body, k = depth + j ∧ cs[j]? = some c ∧
      c.provider.buildRequest c.modelName req = .ok body ∧ post = c.post body)
    (hadmitted : ∀ k b, e = ⟨.canExecute k b, true⟩ → ∃ j c, k = depth + j ∧ cs[j]? = some c ∧
      ∀ e, c.provider.buildRequest c.modelName req = .error e → x = .error e ∧ t = []) :
    Served cs depth req (e :: t) x where
  sent k post r hmem := by
    rcases List.mem_cons.mp hmem with he | hmem
    · exact hsent k post r he.symm
    · exact h.sent k post r hmem
  admitted pre k b rest ht := by
    cases pre with
    | nil =>
      obtain ⟨rfl, rfl⟩ := List.cons.inj ht
      exact hadmitted k b rfl
    | cons e' pre =>
      obtain ⟨rfl, rfl⟩ := List.cons.inj ht
      exact h.admitted pre k b rest rfl
  answered resp hx := by
    obtain ⟨j, c, built, body, hc, hbuilt, hread, hparsed⟩ := h.answered resp hx
    exact ⟨j, c, built, body, hc, hbuilt, List.mem_cons_of_mem _ hread, hparsed⟩

theorem quiet (h : Served cs depth req t x) {e : Http.Event} (he : Http.idle e = true) :
    Served cs depth req (e :: t) x := by
  refine h.cons (fun k post r heq => ?_) fun k b heq => ?_
  · subst heq
    cases he
  · subst heq
    cases he

/-- An attempt with the body that the provider built. -/
theorem sending (h : Served (c :: cs) depth req t x) {body : Json}
    (hbody : c.provider.buildRequest c.modelName req = .ok body) (r : Except String Http.Response) :
    Served (c :: cs) depth req (⟨.send depth (c.post body), r⟩ :: t) x := by
  refine h.cons (fun k post r' heq => ?_) fun k b heq => ?_
  · obtain ⟨hq, -⟩ := Sigma.mk.inj heq
    cases hq
    exact ⟨0, c, body, rfl, rfl, hbody, rfl⟩
  · cases (Sigma.mk.inj heq).1

/-- The breaker of the first manager lets the call pass. -/
theorem entered (h : Served (c :: cs) depth req t x)
    (hbuilt : ∀ e, c.provider.buildRequest c.modelName req = .error e → x = .error e ∧ t = []) (b : Http.BreakerId) :
    Served (c :: cs) depth req (⟨.canExecute depth b, true⟩ :: t) x := by
  refine h.cons (fun k post r heq => ?_) fun k b' heq => ?_
  · cases (Sigma.mk.inj heq).1
  · obtain ⟨hq, -⟩ := Sigma.mk.inj heq
    cases hq
    exact ⟨0, c, rfl, rfl, hbuilt⟩

/-- The call of the fallback. -/
theorem passed (h : Served cs (depth + 1) req t x) (c : Connection) : Served (c :: cs) depth req t x where
  sent k post r hmem := by
    obtain ⟨j, c', body, rfl, hc', hbody⟩ := h.sent k post r hmem
    exact ⟨j + 1, c', body, by omega, hc', hbody⟩
  admitted pre k b rest ht := by
    obtain ⟨j, c', rfl, hc', hbuilt⟩ := h.admitted pre k b rest ht
    exact ⟨j + 1, c', by omega, hc', hbuilt⟩
  answered resp hx := by
    obtain ⟨j, c', built, body, hc', hbuilt, hread, hparsed⟩ := h.answered resp hx
    have hdepth : depth + 1 + j = depth + (j + 1) := by omega
    exact ⟨j + 1, c', built, body, hc', hbuilt, hdepth ▸ hread, hparsed⟩

/-- Nothing more is asked. -/
theorem failed (e : ModelError) : Served cs depth req [] (.error e) where
  sent _ _ _ hmem := by cases hmem
  admitted pre _ _ _ ht := by cases pre <;> cases ht
  answered _ hx := by cases hx

/-- The body of the first manager is read as an answer. -/
theorem answer {built : Json} {text : String} {resp : GenerateResponse}
    (hbuilt : c.provider.buildRequest c.modelName req = .ok built)
    (hparsed : c.provider.parseResponse text = .ok resp) (b : Http.BreakerId) (u : Unit) :
    Served (c :: cs) depth req [⟨.readBody depth, .ok text⟩, ⟨.recordSuccess b, u⟩] (.ok resp) where
  sent _ _ _ hmem := by simp at hmem
  admitted pre k b rest ht := by
    have hmem : (⟨.canExecute k b, true⟩ : Http.Event) ∈ pre ++ (⟨.canExecute k b, true⟩ : Http.Event) :: rest := by simp
    rw [← ht] at hmem
    simp at hmem
  answered resp' hx := by
    obtain rfl := Except.ok.inj hx
    exact ⟨0, c, built, text, rfl, hbuilt, List.mem_cons_self, hparsed⟩

end Served

namespace Connection

variable {c : Connection} {cs : List Connection} {depth : Nat} {fallback : Option (Http.M GenerateResponse)}
  {req : GenerateRequest} {t : List Http.Event} {x : Except ModelError GenerateResponse}
  (hfallback : ∀ call ∈ fallback, ∀ t x, call.Plays t x → Served cs (depth + 1) req t x)

include hfallback in
theorem fallback_served {e : ModelError} (h : (fallback.getD (.fail e)).Plays t x) : Served (c :: cs) depth req t x := by
  cases fallback with
  | some call => exact (hfallback call rfl t x h).passed c
  | none =>
    obtain ⟨rfl, rfl⟩ := h
    exact .failed e

theorem pause_served {attempt delayMs : Nat} {f : Unit → Http.M GenerateResponse}
    (h : (c.pause attempt delayMs >>= f).Plays t x)
    (hrest : ∀ t, (f ()).Plays t x → Served (c :: cs) depth req t x) : Served (c :: cs) depth req t x := by
  unfold pause at h
  split at h
  · obtain ⟨_, t, rfl, h⟩ := h
    exact (hrest t h).quiet rfl
  · exact hrest t h

include hfallback in
theorem retryLoop_served {body : Json} (hbody : c.provider.buildRequest c.modelName req = .ok body)
    {attempt remaining : Nat} {lastError : Option ModelError}
    (h : (c.retryLoop depth fallback (c.post body) attempt remaining lastError).Plays t x) :
    Served (c :: cs) depth req t x := by
  induction remaining generalizing attempt lastError t with
  | zero => exact fallback_served hfallback h
  | succ remaining ih =>
    obtain ⟨sent, t, rfl, h⟩ := h
    refine Served.sending ?_ hbody sent
    cases sent with
    | error e =>
      obtain ⟨_, t, rfl, h⟩ := h
      exact (pause_served h fun t h => ih h).quiet rfl
    | ok resp =>
      obtain ⟨bodyText, t, rfl, h⟩ := h
      cases bodyText with
      | error e =>
        obtain ⟨rfl, rfl⟩ := h
        exact (Served.failed _).quiet rfl
      | ok text =>
        simp only at h
        split at h
        · obtain ⟨_, t, rfl, h⟩ := h
          exact ((pause_served h fun t h => ih h).quiet rfl).quiet rfl
        · split at h
          · cases hparse : c.provider.parseResponse text with
            | ok response =>
              simp only [Prog.bind, hparse] at h
              obtain ⟨_, t, rfl, rfl, rfl⟩ := h
              exact .answer hbody hparse _ _
            | error e =>
              simp only [Prog.bind, hparse] at h
              obtain ⟨_, t, rfl, rfl, rfl⟩ := h
              exact ((Served.failed e).quiet rfl).quiet rfl
          · obtain ⟨_, t, rfl, h⟩ := h
            exact ((fallback_served hfallback h).quiet rfl).quiet rfl

include hfallback in
theorem generate_served (h : (c.generate depth fallback req).Plays t x) : Served (c :: cs) depth req t x := by
  obtain ⟨allowed, t, rfl, h⟩ := h
  cases allowed with
  | false => exact (fallback_served hfallback h).quiet rfl
  | true =>
    simp only at h
    cases hbody : c.provider.buildRequest c.modelName req with
    | error e =>
      rw [hbody] at h
      obtain ⟨rfl, rfl⟩ := h
      refine (Served.failed e).entered (fun e' he' => ?_) _
      obtain rfl := Except.error.inj (hbody.symm.trans he')
      exact ⟨rfl, rfl⟩
    | ok body =>
      rw [hbody] at h
      have hserved : Served (c :: cs) depth req t x := retryLoop_served hfallback hbody h
      exact hserved.entered (fun e he => by cases hbody.symm.trans he) _

end Connection

theorem ConnectionManager.generate_served (cm : ConnectionManager) {depth : Nat} {req : GenerateRequest}
    {t : List Http.Event} {x : Except ModelError GenerateResponse} (h : (cm.generate depth req).Plays t x) :
    Served cm.chain depth req t x := by
  match cm with
  | mk conn none => exact Connection.generate_served (fun _ h => by cases h) h
  | mk conn (some fallback) =>
    refine Connection.generate_served (fun call hcall t x h => ?_) h
    cases hcall
    exact fallback.generate_served h

/-! ### Gemini in a chain -/

def Connection.Gemini (c : Connection) : Prop := ∃ read, c.provider = GeminiProvider.provider read

namespace Connection.Gemini

variable {c : Connection} {req : GenerateRequest}

theorem built (h : c.Gemini) {v : Json} (hbuilt : c.provider.buildRequest c.modelName req = .ok v) : req.Textual := by
  obtain ⟨read, hread⟩ := h
  rw [hread] at hbuilt
  exact GeminiProvider.textual_of_built c.modelName hbuilt

theorem refused (h : c.Gemini) (hreq : ¬ req.Textual) :
    c.provider.buildRequest c.modelName req = .error (GeminiProvider.refusal req) := by
  obtain ⟨read, hread⟩ := h
  rw [hread]
  exact GeminiProvider.refused c.modelName hreq

theorem parsed (h : c.Gemini) {body : String} {resp : GenerateResponse}
    (hparsed : c.provider.parseResponse body = .ok resp) : resp.Textual := by
  obtain ⟨read, hread⟩ := h
  rw [hread] at hparsed
  exact GeminiProvider.textual_of_parsed hparsed

end Connection.Gemini

/-- What a call of the managers `cs` shows of a Gemini manager at position `k`: it sends texts only; where its breaker
lets a request pass that is not text, the call ends with its error, and no fallback is asked. -/
structure GeminiAt (cs : List Connection) (req : GenerateRequest) (t : List Http.Event)
    (x : Except ModelError GenerateResponse) (k : Nat) : Prop where
  texts : ∀ post r, (⟨.send k post, r⟩ : Http.Event) ∈ t → req.Textual
  refuses : ¬ req.Textual → ∀ pre b rest, t = pre ++ (⟨.canExecute k b, true⟩ : Http.Event) :: rest →
    x = .error (GeminiProvider.refusal req) ∧ rest = []

theorem Served.geminiAt {cs : List Connection} {req : GenerateRequest} {t : List Http.Event}
    {x : Except ModelError GenerateResponse} (h : Served cs 0 req t x) {k : Nat} {c : Connection} (hc : cs[k]? = some c)
    (hgemini : c.Gemini) : GeminiAt cs req t x k where
  texts post r hmem := by
    obtain ⟨j, c', body, rfl, hc', hbody, -⟩ := h.sent k post r hmem
    rw [Nat.zero_add, hc'] at hc
    obtain rfl := Option.some.inj hc
    exact hgemini.built hbody
  refuses hreq pre b rest ht := by
    obtain ⟨j, c', rfl, hc', hbuilt⟩ := h.admitted pre k b rest ht
    rw [Nat.zero_add, hc'] at hc
    obtain rfl := Option.some.inj hc
    exact hbuilt _ (hgemini.refused hreq)

/-- An answer of a chain that has only Gemini managers is a text, to a request of texts. -/
theorem Served.textual {cs : List Connection} {depth : Nat} {req : GenerateRequest} {t : List Http.Event}
    {resp : GenerateResponse} (h : Served cs depth req t (.ok resp)) (hgemini : ∀ c ∈ cs, c.Gemini) :
    req.Textual ∧ resp.Textual := by
  obtain ⟨j, c, built, body, hc, hbuilt, -, hparsed⟩ := h.answered resp rfl
  have hc' : c.Gemini := hgemini c (List.mem_of_getElem? hc)
  exact ⟨hc'.built hbuilt, hc'.parsed hparsed⟩

section Pools

variable {ι : Type} [DecidableEq ι]

/-- In every interleaving of calls: a Gemini manager, wherever it stands among fallbacks, sends texts only, and it ends a
call that is not text as soon as its breaker lets it pass. An answer was read by the provider of a manager from a body
that this manager got for a request that its provider built; that of a Gemini manager is one text, without tokens. -/
theorem gemini_textual (env : Http.Env) (w : Http.World) (cms : ι → ConnectionManager) (reqs : ι → GenerateRequest)
    (schedule : List ι) (i : ι) {x : Except ModelError GenerateResponse}
    (hx : (((Http.calls w cms reqs).run (Http.handle env) schedule).threads i).result? = some x) :
    let own := turns i ((Http.calls w cms reqs).run (Http.handle env) schedule).view.trace
    (∀ k c, (cms i).chain[k]? = some c → c.Gemini → GeminiAt (cms i).chain (reqs i) own x k) ∧
      ∀ resp, x = .ok resp → ∃ k c built body, (cms i).chain[k]? = some c ∧
        c.provider.buildRequest c.modelName (reqs i) = .ok built ∧ (⟨.readBody k, .ok body⟩ : Http.Event) ∈ own ∧
        c.provider.parseResponse body = .ok resp ∧ (c.Gemini → (reqs i).Textual ∧ resp.Textual) := by
  have hserved := (cms i).generate_served (Pool.plays_of_result (P := Http.calls w cms reqs) rfl hx)
  refine ⟨fun k c hc hgemini => hserved.geminiAt hc hgemini, fun resp hresp => ?_⟩
  obtain ⟨k, c, built, body, hc, hbuilt, hread, hparsed⟩ := hserved.answered resp hresp
  rw [Nat.zero_add] at hread
  exact ⟨k, c, built, body, hc, hbuilt, hread, hparsed, fun h => ⟨h.built hbuilt, h.parsed hparsed⟩⟩

/-- Bodies that are no answers. -/
def GeminiProvider.mute : ModelProvider := provider fun _ => .error "expected value at line 1 column 1"

/-- A Gemini manager with a plain fallback behind another breaker. -/
def geminiFirst : ConnectionManager :=
  .mk { plainConnection with provider := GeminiProvider.mute } (some (.mk { plainConnection with circuitBreaker := 1 } none))

/-- A request that offers a tool. -/
def GenerateRequest.offering : GenerateRequest := ⟨none, [.ofText .user "go"], some [⟨"calculate", "", .null⟩], none⟩

def offeringRun : Pool Unit Http.Reply Http.World ModelError GenerateResponse :=
  (Http.calls ⟨fun _ => .new 5 30, 0⟩ (fun _ => geminiFirst) fun _ => .offering).run (Http.handle .down)
    (List.replicate 12 ())

/-- The call ends with the error of the first manager, and its fallback is left alone. -/
theorem gemini_textual_offering :
    (offeringRun.threads ()).result? = some (.error GeminiProvider.unsupportedTools) ∧
      (turns () offeringRun.view.trace).length = 1 ∧
      GeminiAt geminiFirst.chain .offering (turns () offeringRun.view.trace) (.error GeminiProvider.unsupportedTools)
        0 := by
  have hresult : (offeringRun.threads ()).result? = some (.error GeminiProvider.unsupportedTools) := by decide +kernel
  exact ⟨hresult, by decide +kernel,
    (gemini_textual .down _ (fun _ => geminiFirst) (fun _ => .offering) _ () hresult).1 0 _ rfl ⟨_, rfl⟩⟩

end Pools

end AgentVerse
