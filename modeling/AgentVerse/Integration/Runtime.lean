import AgentVerse.Effects.Machine
import AgentVerse.Integration.Connectors

/-!
# The runtime

An `IntegrationRuntime` takes events from its input one by one, has each handled, and sends the response to every output.
Requests come in meanwhile, in any order. What the loop does is a sequence of rounds (`Rounds.step`).
-/

namespace AgentVerse.Integration

open Effects

/-! ### Configurations -/

inductive IntegrationError where
  | input (e : ConnectorError)
  | config (message : String)
  deriving DecidableEq

structure SlackConfig where
  port : Nat
  botTokenEnv : String
  signingSecretEnv : String

structure GithubConfig where
  port : Nat
  tokenEnv : String
  webhookSecretEnv : String

structure WhatsappConfig where
  apiKeyEnv : String
  phoneNumberIdEnv : String

/-- `IntegrationConfig`, with its two sections. -/
structure IntegrationConfig where
  input : String
  outputs : List String
  slack : Option SlackConfig
  github : Option GithubConfig
  whatsapp : Option WhatsappConfig

structure IntegrationRuntime where
  input : Connector
  outputs : List Connector

namespace IntegrationRuntime

variable (jt : JsonTexts) (cr : Crypto) (env : String → Option String)

def console : IntegrationRuntime := ⟨consoleConnector.arc, [consoleConnector.arc]⟩

def envVar (name : String) : Except IntegrationError String :=
  match env name with
  | some value => .ok value
  | none => .error (.config ("env var " ++ name ++ " not set"))

/-- The connector of a section, if the section is there. -/
def section? {α : Type} (name : String) (cfg : Option α) (connector : α → Except IntegrationError Connector) :
    Except IntegrationError (List (String × Connector)) :=
  match cfg with
  | none => .ok []
  | some cfg => do
    let c ← connector cfg
    .ok [(name, c)]

/-- The connectors of a configuration, by name. -/
def built (config : IntegrationConfig) : Except IntegrationError (List (String × Connector)) := do
  let slack ← section? "slack" config.slack fun cfg => do
    let token ← envVar env cfg.botTokenEnv
    let secret ← envVar env cfg.signingSecretEnv
    .ok (SlackConnector.connector jt cr ⟨token, secret, cfg.port⟩)
  let github ← section? "github" config.github fun cfg => do
    let token ← envVar env cfg.tokenEnv
    let secret ← envVar env cfg.webhookSecretEnv
    .ok (GithubConnector.connector jt cr ⟨token, secret, cfg.port⟩)
  let whatsapp ← section? "whatsapp" config.whatsapp fun cfg => do
    let _ ← envVar env cfg.apiKeyEnv
    let _ ← envVar env cfg.phoneNumberIdEnv
    .ok whatsAppConnector
  .ok (slack ++ github ++ whatsapp)

def connectorNamed (role : String) (built : List (String × Connector)) (name : String) :
    Except IntegrationError Connector :=
  match built.find? fun e => e.1 = name with
  | some e => .ok e.2.arc
  | none => .error (.config (role ++ " '" ++ name ++ "' not found — add a [connector." ++ name ++ "] section"))

def fromParsedConfig (config : IntegrationConfig) : Except IntegrationError IntegrationRuntime := do
  let built ← built jt cr env config
  let input ← connectorNamed "input" built config.input
  let outputs ← config.outputs.mapM (connectorNamed "output" built)
  .ok ⟨input, outputs⟩

/-- What reading the file of a configuration gives. -/
inductive FileRead where
  | missing
  | failed (message : String)
  | content (toml : Except String IntegrationConfig)

def fromConfig : FileRead → Except IntegrationError IntegrationRuntime
  | .missing => .ok console
  | .failed message => .error (.config message)
  | .content (.error message) => .error (.config message)
  | .content (.ok config) => fromParsedConfig jt cr env config

end IntegrationRuntime

/-! ### Running -/

/-- Where `run` is: before `start`, waiting for an event, for the handler, or for an output, or at its end. -/
inductive Phase where
  | starting
  | receiving
  | handling (event : Event)
  | sending (response : Event) (output : Connector) (left : List Connector)
  | ended (result : Except IntegrationError Unit)

/-- `mpsc::channel(128)`. -/
def channelCapacity : Nat := 128

/-- The listener is spawned by `start` and binds its port later, or panics. -/
inductive Listener where
  | absent
  | spawned (handler : Delivery → String → Except Nat (Json × Option Event))
  | bound (handler : Delivery → String → Except Nat (Json × Option Event))
  | panicked

structure Bridge where
  phase : Phase
  listener : Listener
  channel : Mailbox Event channelCapacity

/-- A request with the identity that its event is given, a client that gives up, the attempt to bind the port, or the
next step of `run` with what it waited for: a line of the standard input, the handler's result, or the outcome of a
request to a platform. -/
inductive Input where
  | delivery (d : Delivery) (id : String)
  | hangUp (place : Nat)
  | bind (free : Bool)
  | start
  | receive
  | line (read : Except String String) (id : String)
  | handled (response : Option Event)
  | sent (outcome : Except String Unit)

inductive Output where
  | refused
  | answered (a : Answer)
  | held
  | gone
  | started
  | took (event : Event)
  | replied (response : Option Event)
  | attempted (request : Except ConnectorError Outgoing) (outcome : Except String Unit)
  | stopped (result : Except IntegrationError Unit)
  | nothing

namespace IntegrationRuntime

variable (rt : IntegrationRuntime)

/-- The next output, or the next event. -/
def sendTo (response : Event) : List Connector → Phase
  | [] => .receiving
  | output :: left => .sending response output left

/-- The handler of the listener. The event of a request is put into the channel before the answer. -/
def deliver (handler : Delivery → String → Except Nat (Json × Option Event)) (s : Bridge) (d : Delivery) (id : String) :
    Output × Bridge :=
  match handler d id with
  | .error status => (.answered ⟨status, none⟩, s)
  | .ok (body, none) => (.answered ⟨200, some body⟩, s)
  | .ok (body, some event) =>
    (if s.channel.Open then .answered ⟨200, some body⟩ else .held, { s with channel := s.channel.send event })

def stop (s : Bridge) (result : Except IntegrationError Unit) : Output × Bridge :=
  (.stopped result, { s with phase := .ended result })

/-- The end of the input ends the loop well, any other error of it ends the loop with that error. -/
def received (s : Bridge) : Except ConnectorError Event → Output × Bridge
  | .ok event => (.took event, { s with phase := .handling event })
  | .error .eof => stop s (.ok ())
  | .error e => stop s (.error (.input e))

def receive (s : Bridge) : Output × Bridge :=
  match rt.input.receive with
  | .channel =>
    match s.channel.recv with
    | some (event, channel) => received { s with channel } (.ok event)
    | none => (.nothing, s)
  | .stdin => (.nothing, s)
  | .never e => received s (.error e)

def readLine (s : Bridge) (read : Except String String) (id : String) : Output × Bridge :=
  match rt.input.receive, read with
  | .stdin, .ok line => received s (consoleEvent line id)
  | .stdin, .error e => received s (.error (.connection e))
  | _, _ => (.nothing, s)

def step (s : Bridge) (i : Input) : Output × Bridge :=
  match i, s.phase with
  | .delivery d id, _ =>
    match s.listener with
    | .bound handler => deliver handler s d id
    | _ => (.refused, s)
  | .hangUp place, _ =>
    if place < s.channel.waiting.length then (.gone, { s with channel := s.channel.leave place }) else (.nothing, s)
  | .bind free, _ =>
    match s.listener with
    | .spawned handler => (.nothing, { s with listener := if free then .bound handler else .panicked })
    | _ => (.nothing, s)
  | .start, .starting =>
    (.started, { s with phase := .receiving, listener := match rt.input.start with
      | .listen _ handler => .spawned handler
      | .nothing => .absent })
  | .receive, .receiving => receive rt s
  | .line read id, .receiving => readLine rt s read id
  | .handled response, .handling _ =>
    (.replied response, { s with phase := match response with
      | some response => sendTo response rt.outputs
      | none => .receiving })
  | .sent outcome, .sending response output left =>
    (.attempted (output.send response) outcome, { s with phase := sendTo response left })
  | _, _ => (.nothing, s)

def machine : Machine Input Output Bridge := ⟨rt.step⟩

end IntegrationRuntime

def Bridge.fresh : Bridge := ⟨.starting, .absent, .empty⟩

/-! ### Steps -/

def Input.isDelivery : Input → Bool
  | delivery .. => true
  | _ => false

/-- What a step can do. -/
inductive Does (rt : IntegrationRuntime) (s : Bridge) : Input → Output → Bridge → Prop where
  | nothing {i : Input} (h : i.isDelivery = false) : Does rt s i .nothing s
  | refused {d : Delivery} {id : String} (h : ∀ handler, s.listener ≠ .bound handler) :
      Does rt s (.delivery d id) .refused s
  | answered {d : Delivery} {id : String} {handler : Delivery → String → Except Nat (Json × Option Event)} {a : Answer}
      (hbound : s.listener = .bound handler) (h : ∀ body event, handler d id ≠ .ok (body, some event)) :
      Does rt s (.delivery d id) (.answered a) s
  | accepted {d : Delivery} {id : String} {handler : Delivery → String → Except Nat (Json × Option Event)} {body : Json}
      {event : Event} (hbound : s.listener = .bound handler) (h : handler d id = .ok (body, some event)) :
      Does rt s (.delivery d id) (if s.channel.Open then .answered ⟨200, some body⟩ else .held)
        { s with channel := s.channel.send event }
  | gone {place : Nat} (h : place < s.channel.waiting.length) :
      Does rt s (.hangUp place) .gone { s with channel := s.channel.leave place }
  | bind {free : Bool} {handler : Delivery → String → Except Nat (Json × Option Event)}
      (h : s.listener = .spawned handler) :
      Does rt s (.bind free) .nothing { s with listener := if free then .bound handler else .panicked }
  | listens {port : Nat} {handler : Delivery → String → Except Nat (Json × Option Event)} (hphase : s.phase = .starting)
      (h : rt.input.start = .listen port handler) :
      Does rt s .start .started { s with phase := .receiving, listener := .spawned handler }
  | deaf (hphase : s.phase = .starting) (h : rt.input.start = .nothing) :
      Does rt s .start .started { s with phase := .receiving, listener := .absent }
  | took {event : Event} {channel : Mailbox Event channelCapacity} (hphase : s.phase = .receiving)
      (hsource : rt.input.receive = .channel) (h : s.channel.recv = some (event, channel)) :
      Does rt s .receive (.took event) { s with phase := .handling event, channel }
  | read {line id : String} {event : Event} (hphase : s.phase = .receiving) (hsource : rt.input.receive = .stdin)
      (h : consoleEvent line id = .ok event) :
      Does rt s (.line (.ok line) id) (.took event) { s with phase := .handling event }
  | stopped {i : Input} {result : Except IntegrationError Unit} (h : i.isDelivery = false)
      (hphase : s.phase = .receiving) (hsource : rt.input.receive ≠ .channel) :
      Does rt s i (.stopped result) { s with phase := .ended result }
  | skipped {event : Event} (hphase : s.phase = .handling event) :
      Does rt s (.handled none) (.replied none) { s with phase := .receiving }
  | replied {event response : Event} (hphase : s.phase = .handling event) :
      Does rt s (.handled (some response)) (.replied (some response))
        { s with phase := IntegrationRuntime.sendTo response rt.outputs }
  | attempted {response : Event} {output : Connector} {left : List Connector} {outcome : Except String Unit}
      (hphase : s.phase = .sending response output left) :
      Does rt s (.sent outcome) (.attempted (output.send response) outcome)
        { s with phase := IntegrationRuntime.sendTo response left }

variable {rt : IntegrationRuntime} {s : Bridge}

theorem does_received {i : Input} {e : ConnectorError} (h : i.isDelivery = false) (hphase : s.phase = .receiving)
    (hsource : rt.input.receive ≠ .channel) :
    Does rt s i (IntegrationRuntime.received s (.error e)).1 (IntegrationRuntime.received s (.error e)).2 := by
  cases e <;> exact .stopped h hphase hsource

theorem does_deliver {d : Delivery} {id : String} {handler : Delivery → String → Except Nat (Json × Option Event)}
    (hbound : s.listener = .bound handler) : Does rt s (.delivery d id)
      (IntegrationRuntime.deliver handler s d id).1 (IntegrationRuntime.deliver handler s d id).2 := by
  unfold IntegrationRuntime.deliver
  split
  · rename_i h
    exact .answered hbound fun body event => by simp [h]
  · rename_i h
    exact .answered hbound fun body event => by simp [h]
  · rename_i h
    exact .accepted hbound h

theorem does_receive (hphase : s.phase = .receiving) :
    Does rt s .receive (IntegrationRuntime.receive rt s).1 (IntegrationRuntime.receive rt s).2 := by
  unfold IntegrationRuntime.receive
  split
  · rename_i hsource
    split
    · rename_i h
      exact .took hphase hsource h
    · exact .nothing rfl
  · exact .nothing rfl
  · rename_i hsource
    exact does_received rfl hphase (by simp [hsource])

theorem does_readLine (hphase : s.phase = .receiving) (read : Except String String) (id : String) :
    Does rt s (.line read id) (IntegrationRuntime.readLine rt s read id).1 (IntegrationRuntime.readLine rt s read id).2 := by
  unfold IntegrationRuntime.readLine
  split
  · rename_i line hsource
    cases h : consoleEvent line id with
    | ok event => exact .read hphase hsource h
    | error e => exact does_received rfl hphase (by simp [hsource])
  · rename_i hsource
    exact does_received rfl hphase (by simp [hsource])
  · exact .nothing rfl

theorem does_step (i : Input) : Does rt s i (rt.step s i).1 (rt.step s i).2 := by
  unfold IntegrationRuntime.step
  split
  · split
    · rename_i hbound
      exact does_deliver hbound
    · rename_i h
      exact .refused h
  · split
    · rename_i h
      exact .gone h
    · exact .nothing rfl
  · split
    · rename_i h
      exact .bind h
    · exact .nothing rfl
  · rename_i hphase
    cases h : rt.input.start with
    | listen port handler => exact .listens hphase h
    | nothing => exact .deaf hphase h
  · rename_i hphase
    exact does_receive hphase
  · rename_i hphase
    exact does_readLine hphase _ _
  · rename_i response event hphase
    cases response with
    | none => exact .skipped hphase
    | some response => exact .replied hphase
  · rename_i hphase
    exact .attempted hphase
  · rename_i hdelivery _ _ _ _ _ _ _
    refine .nothing ?_
    unfold Input.isDelivery
    split
    · exact (hdelivery _ _ rfl).elim
    · rfl

/-! ### Rounds -/

/-- What the loop does that can be seen from outside. -/
inductive Mark where
  | took (event : Event)
  | replied (response : Option Event)
  | attempted (request : Except ConnectorError Outgoing)

def Output.mark : Output → Option Mark
  | took event => some (.took event)
  | replied response => some (.replied response)
  | attempted request _ => some (.attempted request)
  | _ => none

/-- One round of the loop. -/
structure Round where
  event : Event
  response : Option Event

variable (outputs : List Connector)

/-- The response of a round goes to every output. -/
def Round.marks (r : Round) : List Mark :=
  .took r.event :: .replied r.response ::
    (r.response.toList.flatMap fun response => outputs.map fun output => .attempted (output.send response))

/-- What is done of the round under way. -/
inductive Underway : Phase → List Mark → Prop where
  | starting : Underway .starting []
  | receiving : Underway .receiving []
  | ended (result : Except IntegrationError Unit) : Underway (.ended result) []
  | handling (event : Event) : Underway (.handling event) [.took event]
  | sending (event response : Event) (before : List Connector) (output : Connector) (left : List Connector)
      (h : outputs = before ++ output :: left) : Underway (.sending response output left)
        (.took event :: .replied (some response) :: before.map fun output => .attempted (output.send response))

/-- The marks are those of whole rounds, and of the round under way. -/
def Rounds (phase : Phase) (marks : List Mark) (rounds : List Round) : Prop :=
  ∃ part, Underway outputs phase part ∧ marks = rounds.flatMap (Round.marks outputs) ++ part

variable {outputs} {marks : List Mark} {rounds : List Round}

/-- A response has been sent to the outputs before. -/
theorem Rounds.sendTo (rounds : List Round) (event : Event) (before : List Connector) {response : Event}
    {left : List Connector} (h : outputs = before ++ left)
    (hmarks : marks = rounds.flatMap (Round.marks outputs) ++ .took event :: .replied (some response) ::
      before.map fun output => .attempted (output.send response)) :
    ∃ rounds, Rounds outputs (IntegrationRuntime.sendTo response left) marks rounds := by
  cases left with
  | nil =>
    refine ⟨rounds ++ [⟨event, some response⟩], [], .receiving, ?_⟩
    rw [List.append_nil] at h
    simp [hmarks, Round.marks, h]
  | cons output left => exact ⟨rounds, _, .sending event response before output left h, hmarks⟩

theorem Rounds.step {i : Input} {o : Output} {s' : Bridge} (hstep : Does rt s i o s')
    (h : Rounds rt.outputs s.phase marks rounds) :
    ∃ rounds, Rounds rt.outputs s'.phase (marks ++ o.mark.toList) rounds := by
  obtain ⟨part, hpart, hmarks⟩ := h
  cases hstep with
  | nothing | refused | answered | gone | bind => exact ⟨rounds, part, hpart, by simpa [Output.mark] using hmarks⟩
  | accepted => exact ⟨rounds, part, hpart, by split <;> simpa [Output.mark] using hmarks⟩
  | listens hphase | deaf hphase =>
    rw [hphase] at hpart
    cases hpart
    exact ⟨rounds, [], .receiving, by simpa [Output.mark] using hmarks⟩
  | @stopped _ result _ hphase =>
    rw [hphase] at hpart
    cases hpart
    exact ⟨rounds, [], .ended result, by simpa [Output.mark] using hmarks⟩
  | @took event _ hphase | @read _ _ event hphase =>
    rw [hphase] at hpart
    cases hpart
    exact ⟨rounds, _, .handling event, by simp [hmarks, Output.mark]⟩
  | @skipped event hphase =>
    rw [hphase] at hpart
    cases hpart
    exact ⟨rounds ++ [⟨event, none⟩], [], .receiving, by simp [hmarks, Round.marks, Output.mark]⟩
  | @replied event response hphase =>
    rw [hphase] at hpart
    cases hpart
    exact Rounds.sendTo rounds event [] rfl (by simp [hmarks, Output.mark])
  | @attempted response output left outcome hphase =>
    rw [hphase] at hpart
    cases hpart with
    | sending event _ before _ _ houtputs =>
      exact Rounds.sendTo rounds event (before ++ [output]) (by simpa using houtputs) (by simp [hmarks, Output.mark])

end AgentVerse.Integration
