import AgentVerse.Effects.Duplex
import AgentVerse.Mcp.Remote

/-!
# MCP over the standard streams of a process

A client that talks to a child process is shared by all callers. Each locks the standard input for the line of its
request and then the standard output for one line, and reads that line as its response, whatever id it has. So responses
go to the callers in the order in which they read, and a caller that wrote and did not read leaves its response to the
next one (`stdio_by_rank`).
-/

namespace AgentVerse

open Effects

namespace Mcp

variable (jt : JsonTexts)

/-- The operations that the callers of a connected client share. -/
inductive ClientCall where
  | listTools
  | callTool (name : String) (args : Json)

inductive ClientResult where
  | tools (tools : List McpToolInfo)
  | value (v : Json)

namespace ClientCall

/-- The request of a call; it has a fresh id. -/
def request (id : String) : ClientCall → JsonRpcRequest
  | listTools => ⟨id, "tools/list", some (.ofFields [])⟩
  | callTool name args => callRequest id name args

/-- What a call makes of its response. -/
def read : ClientCall → Json → Except McpError ClientResult
  | listTools, resp => (readTools resp).map .tools
  | callTool .., resp => (readCall resp).map .value

end ClientCall

/-- A value as a line. -/
def line (v : Json) : String := jt.print v ++ "\n"

/-- What is read of a line; at the end of the stream, it is empty. -/
def readLine : Except String (Option String) → Except McpError Json
  | .error e => .error (.connection e)
  | .ok text =>
    match jt.document (String.ofList (trim (text.getD "").toList)) with
    | .ok v => .ok v
    | .error e => .error (.parse e.message)

/-- A program of the client. -/
abbrev StdioProg (α : Type) := Prog (Wire String) (WireReply String String) McpError α

/-- `McpClient::send`. -/
def send (req : JsonRpcRequest) : StdioProg Json := exchange (line jt req.body) .connection (readLine jt)

/-- `McpClient::send_notification`. -/
def sendNotification (notif : Json) : StdioProg Unit :=
  .ask (.put (line jt notif)) fun
    | .error e => .fail (.connection e)
    | .ok () => .ret ()

/-- The request that opens a session. -/
def initializeRequest (version id : String) : JsonRpcRequest :=
  ⟨id, "initialize", some (.ofFields [
    ("protocolVersion", .string "2025-03-26"),
    ("capabilities", .ofFields []),
    ("clientInfo", .ofFields [("name", .string "agentverse"), ("version", .string version)])])⟩

def initializedNotification : Json :=
  .ofFields [("jsonrpc", .string "2.0"), ("method", .string "notifications/initialized"), ("params", .ofFields [])]

/-- `McpClient::initialize`. -/
def handshake (version id : String) : StdioProg Unit := do
  let resp ← send jt (initializeRequest version id)
  match resp.get? "error" with
  | some err => .fail (.initialization (errorMessage err "unknown"))
  | none => sendNotification jt initializedNotification

namespace ClientCall

/-- The call as a program. -/
def run (id : String) (call : ClientCall) : StdioProg ClientResult := do
  let resp ← send jt (call.request id)
  Prog.lift (call.read resp)

/-- What a call makes of a line. -/
def answer (call : ClientCall) (r : Except String (Option String)) : Except McpError ClientResult :=
  (readLine jt r).bind call.read

theorem run_eq (id : String) (call : ClientCall) :
    call.run jt id = exchange (line jt (call.request id).body) .connection (call.answer jt) :=
  exchange_bind ..

end ClientCall

/-! ### The handshake -/

section Handshake

variable {jt : JsonTexts} {σ : Type} {p : Peer String String String σ}

/-- A request that gets a response took the first line that was outstanding. -/
theorem send_ok {req : JsonRpcRequest} {c c' : Channel String σ} {t t' : List (Step (WireReply String String))}
    {resp : Json} (h : (send jt req).run p.handle ⟨c, t⟩ = (.ok resp, ⟨c', t'⟩))
    (hprompt : c.queue ++ (p.serve c.peer (line jt req.body)).1 ≠ []) :
    c'.peer = (p.serve c.peer (line jt req.body)).2 ∧
      ∃ first, c.queue ++ (p.serve c.peer (line jt req.body)).1 = first :: c'.queue := by
  obtain ⟨first, rest, hlines⟩ := List.exists_cons_of_ne_nil hprompt
  simp only [send, exchange, Prog.run_ask, Config.after, Peer.handle] at h
  cases hput : p.fault c.steps with
  | some e =>
    rw [hput] at h
    cases h
  | none =>
    rw [hput] at h
    simp only [hlines, Prog.run_ask, Config.after, Peer.handle, Prog.run_lift] at h
    cases htake : p.fault (c.steps + 1) with
    | some e =>
      rw [htake] at h
      cases h
    | none =>
      rw [htake] at h
      obtain ⟨-, hc⟩ := Prod.mk.inj h
      cases hc
      exact ⟨rfl, first, hlines⟩

/-- A handshake that succeeds takes the first line of the process; the others wait for the callers. -/
theorem handshake_queue {version id : String} {s : σ} {c : Channel String σ}
    (h : (handshake jt version id).Ends p.handle ⟨s, [], 0⟩ (.ok ()) c)
    (hprompt : (p.serve s (line jt (initializeRequest version id).body)).1 ≠ []) :
    ∃ first, (p.serveAll s [line jt (initializeRequest version id).body, line jt initializedNotification]).1 =
      first :: c.queue := by
  obtain ⟨t', hrun⟩ := h []
  obtain ⟨resp, ⟨c₁, t₁⟩, hsend, hrest⟩ := (Prog.run_bind_eq_ok _).mp hrun
  obtain ⟨hpeer, first, hqueue⟩ := send_ok hsend hprompt
  refine ⟨first, ?_⟩
  have hqueue' : (p.serve s (line jt (initializeRequest version id).body)).1 = first :: c₁.queue := hqueue
  split at hrest
  · cases hrest
  · simp only [sendNotification, Prog.run_ask, Config.after, Peer.handle] at hrest
    cases hput : p.fault c₁.steps with
    | some e =>
      rw [hput] at hrest
      cases hrest
    | none =>
      rw [hput] at hrest
      obtain ⟨-, hc⟩ := Prod.mk.inj hrest
      cases hc
      simp [Peer.serveAll, hqueue', hpeer]

end Handshake

/-! ### Callers -/

variable {ι σ : Type} (calls : ι → ClientCall) (ids : ι → String)

/-- The line of the request of a caller. -/
def requestLine (i : ι) : String := line jt ((calls i).request (ids i)).body

/-- The callers of a client, each with one call, on a connection. -/
def shared (c : Channel String σ) :
    Pool ι (WireReply String String : Wire String → Type) (Channel String σ) McpError ClientResult :=
  ⟨fun i => (calls i).run jt (ids i), ⟨c, []⟩⟩

variable {jt calls ids} {p : Peer String String String σ} {c : Channel String σ}

theorem shared_exchanging : Exchanging p c.peer c.queue (requestLine jt calls ids) .connection
    (fun i => (calls i).answer jt) (shared jt calls ids c) where
  balanced := ⟨rfl, (List.append_nil _).symm⟩
  stage i := by
    have hrun : (shared jt calls ids c).threads i =
      exchange (requestLine jt calls ids i) .connection ((calls i).answer jt) := ClientCall.run_eq ..
    rw [hrun]
    exact .fresh (List.not_mem_nil) (List.not_mem_nil)
  put_once := .nil
  taken_once := .nil
  own _ _ h := nomatch h

variable [DecidableEq ι]

/-- A caller whose turn has not come has not begun. -/
theorem shared_fresh {schedule : List ι} {i : ι} (hi : i ∉ schedule) :
    ((shared jt calls ids c).run p.handle schedule).threads i =
      exchange (requestLine jt calls ids i) .connection ((calls i).answer jt) := by
  rw [Pool.run_other hi]
  exact ClientCall.run_eq ..

/-- Responses go to the callers by rank: the line that is read as the `j`th one is the `j`th line of the process, whoever
asked for it. Where the process sends a line for each request, a caller reads its own response just if as many callers
read before it as wrote before it and lines were outstanding at first; and a call that nobody comes between reads the
first line that is outstanding, its own only if there is no other, and leaves as much outstanding as it found. At first,
all lines but one that the process sent during the handshake are outstanding. -/
theorem stdio_by_rank (p : Peer String String String σ) (c : Channel String σ) (schedule : List ι) :
    let P := (shared jt calls ids c).run p.handle schedule
    let sent := puts P.view.trace
    let got := takes P.view.trace
    let lines := c.queue ++ (p.serveAll c.peer (sent.map Prod.snd)).1
    ((sent.map Prod.fst).Nodup ∧ (got.map Prod.fst).Nodup ∧ ∀ i a, (i, a) ∈ sent → a = requestLine jt calls ids i) ∧
    (∀ (j : Nat) i b, got[j]? = some (i, b) →
      lines[j]? = some b ∧ P.threads i = .lift ((calls i).answer jt (.ok (some b)))) ∧
    ((∀ i s, (p.serve s (requestLine jt calls ids i)).1.length = 1) →
      got.length + P.view.state.queue.length = c.queue.length + sent.length ∧
      (∀ i a (k : Nat) b (j : Nat) own, sent[k]? = some (i, a) → got[j]? = some (i, b) →
        (p.serve (p.serveAll c.peer ((sent.map Prod.snd).take k)).2 a).1 = [own] →
        (j = c.queue.length + k → b = own) ∧ (lines.Nodup → b = own → j = c.queue.length + k)) ∧
      ∀ i own, i ∉ schedule → (p.serve P.view.state.peer (requestLine jt calls ids i)).1 = [own] →
        p.fault P.view.state.steps = none → p.fault (P.view.state.steps + 1) = none →
        let P' := P.run p.handle [i, i]
        (∃ b, (P.view.state.queue ++ [own])[0]? = some b ∧
          P'.threads i = .lift ((calls i).answer jt (.ok (some b)))) ∧
        P'.view.state.queue.length = P.view.state.queue.length) ∧
    ∀ version id s, (handshake jt version id).Ends p.handle ⟨s, [], 0⟩ (.ok ()) c →
      (p.serve s (line jt (initializeRequest version id).body)).1 ≠ [] →
      ∃ first, (p.serveAll s [line jt (initializeRequest version id).body, line jt initializedNotification]).1 =
        first :: c.queue := by
  intro P sent got lines
  have hexch : Exchanging p c.peer c.queue (requestLine jt calls ids) .connection (fun i => (calls i).answer jt) P :=
    shared_exchanging.run schedule
  refine ⟨⟨hexch.put_once, hexch.taken_once, hexch.own⟩, fun j i b => exchanges_taken hexch, fun hprompt =>
    ⟨hexch.outstanding hprompt, fun i a k b j own hk hj hown => ?_, fun i own hi hown hput htake => ?_⟩,
    fun version id s => handshake_queue⟩
  · have htaken : lines[j]? = some b := (exchanges_taken hexch hj).1
    have hplace : lines[c.queue.length + k]? = some own := hexch.place hprompt hk hown
    constructor
    · intro hrank
      rw [hrank, hplace] at htaken
      exact (Option.some.inj htaken).symm
    · intro hnodup hb
      rw [hb, ← hplace] at htaken
      exact ((List.getElem?_inj (List.getElem?_eq_some_iff.mp hplace).1 hnodup).mp htaken.symm).symm
  · have hfresh : P.threads i = exchange (requestLine jt calls ids i) .connection ((calls i).answer jt) :=
      shared_fresh hi
    obtain ⟨b, rest, hsplit, hend, hqueue⟩ := exchange_undisturbed hown hfresh hput htake
    refine ⟨⟨b, by rw [hsplit]; rfl, hend⟩, ?_⟩
    rw [hqueue]
    simpa using (congrArg List.length hsplit).symm

/-- A process that repeats the ids of its requests. -/
def echo : Peer String String String Unit := ⟨fun _ a => ([a], ()), fun _ => none⟩

-- Two callers that read in the other order read the response of each other.
example : takes ((shared ⟨fun v => ((v.field "id").asStr).getD "", .ok ∘ .string⟩ (fun _ => .callTool "tool" .null)
    (fun second => if second then "2" else "1") ⟨(), [], 0⟩).run echo.handle [false, true, true, false]).view.trace =
    [(true, "1\n"), (false, "2\n")] := by
  decide +kernel

end Mcp

end AgentVerse
