import AgentVerse.Integration.Runtime

/-!
# The bridge

A runtime with a listener, and the requests that come in while it runs. What the loop takes comes through the channel in
the order in which it was accepted, and of signed requests (`bridge_in_order`). A runtime from a configuration hears
nothing at all (`configured_deaf`).
-/

namespace AgentVerse.Integration

open Effects

variable {rt : IntegrationRuntime} {s : Bridge}

/-! ### Events -/

private theorem filterMap_one {α β : Type} (f : α → Option β) (a : α) : [a].filterMap f = (f a).toList := by
  cases hf : f a <;> simp [hf]

/-- The handler of the listener that is spawned. -/
def Connector.handler? (c : Connector) : Option (Delivery → String → Except Nat (Json × Option Event)) :=
  match c.start with
  | .listen _ handler => some handler
  | .nothing => none

/-- The event of a request that was not refused. -/
def accepted (rt : IntegrationRuntime) : Input × Output → Option Event
  | (.delivery _ _, .refused) => none
  | (.delivery d id, _) => do
    let handler ← rt.input.handler?
    match handler d id with
    | .ok (_, event) => event
    | .error _ => none
  | _ => none

def taken : Input × Output → Option Event
  | (_, .took event) => some event
  | _ => none

def left : Input × Output → Option Unit
  | (_, .gone) => some ()
  | _ => none

/-- The listener is that of the input. -/
def Spawned (rt : IntegrationRuntime) : Listener → Prop
  | .spawned handler | .bound handler => rt.input.handler? = some handler
  | _ => True

theorem Spawned.step {i : Input} {o : Output} {s' : Bridge} (hstep : Does rt s i o s') (h : Spawned rt s.listener) :
    Spawned rt s'.listener := by
  cases hstep with
  | bind hspawned =>
    rw [hspawned] at h
    dsimp only
    split
    · exact h
    · trivial
  | listens _ hstart => simp [Spawned, Connector.handler?, hstart]
  | deaf => trivial
  | _ => exact h

/-- What was taken, with what is in the channel and in the line, is what was accepted, in the same order, less the
events of the clients that gave up. -/
structure Kept (rt : IntegrationRuntime) (h : List (Input × Output)) (s : Bridge) : Prop where
  spawned : Spawned rt s.listener
  order : (h.filterMap taken ++ s.channel.inbox).Sublist (h.filterMap (accepted rt))
  count : (h.filterMap taken).length + s.channel.inbox.length + (h.filterMap left).length =
    (h.filterMap (accepted rt)).length

theorem accepted_not_delivery {i : Input} (h : i.isDelivery = false) (o : Output) : accepted rt (i, o) = none := by
  cases i with
  | delivery d id => cases h
  | _ => rfl

/-- A step puts the accepted event behind the others, or takes the first one, or lets one go. -/
theorem moves (hsource : rt.input.receive = .channel) {i : Input} {o : Output} {s' : Bridge}
    (hspawned : Spawned rt s.listener) (hstep : Does rt s i o s') :
    ((taken (i, o)).toList ++ s'.channel.inbox).Sublist (s.channel.inbox ++ (accepted rt (i, o)).toList) ∧
      (taken (i, o)).toList.length + s'.channel.inbox.length + (left (i, o)).toList.length =
        s.channel.inbox.length + (accepted rt (i, o)).toList.length := by
  cases hstep with
  | nothing h => simp [taken, left, accepted_not_delivery h]
  | refused => simp [taken, accepted, left]
  | @answered d id handler a hbound h =>
    rw [hbound] at hspawned
    have hnone : accepted rt (.delivery d id, .answered a) = none := by
      simp only [accepted, show rt.input.handler? = some handler from hspawned]
      cases hh : handler d id with
      | error status => simp [hh]
      | ok r =>
        obtain ⟨body, event⟩ := r
        cases event with
        | none => simp [hh]
        | some event => exact absurd hh (h body event)
    simp [taken, left, hnone]
  | @accepted d id handler body event hbound h =>
    rw [hbound] at hspawned
    have hsome : ∀ o, o ≠ .refused → accepted rt (.delivery d id, o) = some event := by
      intro o ho
      unfold accepted
      split
      · rename_i heq
        cases heq
        exact absurd rfl ho
      · rename_i heq
        cases heq
        simp [show rt.input.handler? = some handler from hspawned, h]
      · rename_i hno
        exact (hno _ _ _ rfl).elim
    rw [Mailbox.inbox_send]
    split <;> simp [taken, left, hsome]
  | gone h =>
    have hlen := Mailbox.length_leave h
    exact ⟨by simpa [taken, accepted] using Mailbox.inbox_leave _ _, by simp [taken, accepted, left]; omega⟩
  | took _ _ h =>
    rw [Mailbox.inbox_recv h]
    simp [taken, accepted, left]
    omega
  | read _ hstdin => rw [hsource] at hstdin; cases hstdin
  | stopped _ _ hnot => exact absurd hsource hnot
  | bind | listens | deaf | skipped | replied | attempted => simp [taken, accepted, left]

theorem Kept.step (hsource : rt.input.receive = .channel) {h : List (Input × Output)} {i : Input} {o : Output}
    {s' : Bridge} (hkept : Kept rt h s) (hstep : Does rt s i o s') : Kept rt (h ++ [(i, o)]) s' := by
  obtain ⟨hspawned, horder, hcount⟩ := hkept
  obtain ⟨hsub, hlen⟩ := moves hsource hspawned hstep
  refine ⟨hspawned.step hstep, ?_, ?_⟩
  · rw [List.filterMap_append, List.filterMap_append, filterMap_one, filterMap_one, List.append_assoc]
    exact (hsub.append_left _).trans (by rw [← List.append_assoc]; exact horder.append_right _)
  · simp only [List.filterMap_append, List.length_append, filterMap_one]
    omega

/-! ### Signatures -/

theorem checkSignature_eq_ok {cr : Crypto} {scheme secret : String} {header : List Char} {message : List UInt8}
    (h : checkSignature cr scheme secret header message = .ok ()) :
    ∃ mac, cr.hmac (bytesOf secret) message = some mac ∧ header = scheme.toList ++ hexEncode mac := by
  unfold checkSignature at h
  split at h
  · cases h
  · rename_i mac hmac
    split at h
    · cases h
    · rename_i heq
      exact ⟨mac, hmac, (not_not.mp heq).symm⟩

/-- The header of the request is the code of its body. -/
def GithubConnector.Signed (cr : Crypto) (c : GithubConnector) (d : Delivery) : Prop :=
  ∃ mac, cr.hmac (bytesOf c.webhookSecret) d.body = some mac ∧
    (d.header "X-Hub-Signature-256").bind Gateway.headerText = some ("sha256=".toList ++ hexEncode mac)

/-- The header of the request is the code of its timestamp and its text. -/
def SlackConnector.Signed (cr : Crypto) (c : SlackConnector) (d : Delivery) : Prop :=
  ∃ timestamp text mac, (d.header "X-Slack-Request-Timestamp").bind Gateway.headerText = some timestamp ∧
    utf8? d.body = some text ∧
    cr.hmac (bytesOf c.signingSecret) (bytesOf ("v0:" ++ String.ofList timestamp ++ ":" ++ text)) = some mac ∧
    (d.header "X-Slack-Signature").bind Gateway.headerText = some ("v0=".toList ++ hexEncode mac)

variable {jt : JsonTexts} {cr : Crypto} {d : Delivery} {id : String} {body : Json} {event : Option Event}

theorem GithubConnector.signed_of_ok {c : GithubConnector} (h : eventHandler jt cr c.webhookSecret d id = .ok (body, event)) :
    c.Signed cr d := by
  unfold eventHandler at h
  split at h
  · cases h
  · rename_i hverify
    unfold verifySignature at hverify
    split at hverify
    · cases hverify
    · rename_i sig hsig
      obtain ⟨mac, hmac, rfl⟩ := checkSignature_eq_ok hverify
      exact ⟨mac, hmac, hsig⟩

theorem SlackConnector.signed_of_ok {c : SlackConnector} (h : eventHandler jt cr c.signingSecret d id = .ok (body, event)) :
    c.Signed cr d := by
  unfold eventHandler at h
  split at h
  · cases h
  · rename_i hverify
    split at h
    · cases h
    · rename_i payload hpayload
      obtain ⟨text, htext, -⟩ := Option.bind_eq_some_iff.mp hpayload
      unfold verifySignature at hverify
      split at hverify
      · cases hverify
      · rename_i timestamp htimestamp
        split at hverify
        · cases hverify
        · rename_i sig hsig
          obtain ⟨mac, hmac, rfl⟩ := checkSignature_eq_ok hverify
          refine ⟨timestamp, text, mac, htimestamp, htext, ?_, hsig⟩
          rwa [basestring, fromUtf8Lossy, htext] at hmac

/-! ### Whole runs -/

/-- The connectors that listen. -/
inductive Platform where
  | github (c : GithubConnector)
  | slack (c : SlackConnector)

def Platform.connector (jt : JsonTexts) (cr : Crypto) : Platform → Connector
  | github c => c.connector jt cr
  | slack c => c.connector jt cr

def Platform.Signed (cr : Crypto) : Platform → Delivery → Prop
  | github c => c.Signed cr
  | slack c => c.Signed cr

theorem Platform.source (p : Platform) : (p.connector jt cr).receive = .channel := by cases p <;> rfl

theorem Platform.signed_of_accepted {p : Platform} {outputs : List Connector} {i : Input} {o : Output} {e : Event}
    (h : accepted ⟨p.connector jt cr, outputs⟩ (i, o) = some e) : ∃ d id, i = .delivery d id ∧ p.Signed cr d := by
  unfold accepted at h
  split at h
  · cases h
  · rename_i d id o' _ heq
    cases heq
    refine ⟨d, id, rfl, ?_⟩
    obtain ⟨handler, hhandler, h⟩ := Option.bind_eq_some_iff.mp h
    split at h
    · rename_i hok
      cases p with
      | github c =>
        cases hhandler
        exact GithubConnector.signed_of_ok hok
      | slack c =>
        cases hhandler
        exact SlackConnector.signed_of_ok hok
    · cases h
  · cases h

theorem step_receive (hphase : s.phase = .receiving) : rt.step s .receive = IntegrationRuntime.receive rt s := by
  simp only [IntegrationRuntime.step, hphase]

/-- An input with a channel never ends the loop. -/
theorem Does.never_ends (hsource : rt.input.receive = .channel) {i : Input} {o : Output} {s' : Bridge}
    (hstep : Does rt s i o s') (h : ∀ result, s.phase ≠ .ended result) (result : Except IntegrationError Unit) :
    s'.phase ≠ .ended result := by
  cases hstep with
  | stopped _ _ hnot => exact absurd hsource hnot
  | replied | attempted => unfold IntegrationRuntime.sendTo; dsimp only; split <;> simp
  | listens | deaf | took | read | skipped => simp
  | _ => exact h result

theorem history_outputs (rt : IntegrationRuntime) (s : Bridge) (inputs : List Input) :
    (rt.machine.history s inputs).map Prod.snd = rt.machine.outputs s inputs := List.map_snd_zip (by simp)

/-- The rounds of a whole run, and the way of its events. -/
theorem run_kept (hsource : rt.input.receive = .channel) (inputs : List Input) :
    (∃ rounds, Rounds rt.outputs (rt.machine.run .fresh inputs).phase
      ((rt.machine.outputs .fresh inputs).filterMap Output.mark) rounds) ∧
    Kept rt (rt.machine.history .fresh inputs) (rt.machine.run .fresh inputs) ∧
    ∀ result, (rt.machine.run .fresh inputs).phase ≠ .ended result := by
  rw [← history_outputs]
  refine Machine.history_rule (M := rt.machine) (J := fun h s =>
    (∃ rounds, Rounds rt.outputs s.phase ((h.map Prod.snd).filterMap Output.mark) rounds) ∧
      Kept rt h s ∧ ∀ result, s.phase ≠ .ended result) ?_ ?_ inputs
  · rintro h s i ⟨⟨rounds, hrounds⟩, hkept, hends⟩
    have hstep : Does rt s i (rt.step s i).1 (rt.step s i).2 := does_step i
    refine ⟨?_, hkept.step hsource hstep, hstep.never_ends hsource hends⟩
    obtain ⟨rounds, hnext⟩ := hrounds.step hstep
    refine ⟨rounds, ?_⟩
    rw [List.map_append, List.filterMap_append, List.map_singleton, filterMap_one]
    exact hnext
  · exact ⟨⟨[], [], .starting, rfl⟩, ⟨trivial, by simp [Bridge.fresh], by simp [Bridge.fresh]⟩, by simp [Bridge.fresh]⟩

/-- Whatever requests come in and however the handler and the platforms answer: what the loop does are rounds, of each
of which the response goes to every output, in order; it takes the events in the order in which they were accepted,
each once, and of those none is lost but the ones whose clients gave up while the channel was full; every event is the
one that the listener made of a request that the platform signed; and the loop never ends, and takes an event whenever
it waits and there is one. -/
theorem bridge_in_order (jt : JsonTexts) (cr : Crypto) (p : Platform) (outputs : List Connector) (inputs : List Input) :
    let rt : IntegrationRuntime := ⟨p.connector jt cr, outputs⟩
    let h := rt.machine.history .fresh inputs
    let s := rt.machine.run .fresh inputs
    (∃ rounds, Rounds outputs s.phase ((rt.machine.outputs .fresh inputs).filterMap Output.mark) rounds) ∧
      (h.filterMap taken ++ s.channel.inbox).Sublist (h.filterMap (accepted rt)) ∧
      (h.filterMap taken).length + s.channel.inbox.length + (h.filterMap left).length =
        (h.filterMap (accepted rt)).length ∧
      (∀ e ∈ h.filterMap taken, ∃ d id o, (.delivery d id, o) ∈ h ∧ accepted rt (.delivery d id, o) = some e ∧
        p.Signed cr d) ∧
      (∀ result, s.phase ≠ .ended result) ∧
      (s.phase = .receiving → s.channel.inbox ≠ [] → ∃ e, (rt.step s .receive).1 = .took e) := by
  intro rt h s
  have hsource : rt.input.receive = .channel := p.source
  obtain ⟨hrounds, hkept, hends⟩ := run_kept hsource inputs
  refine ⟨hrounds, hkept.order, hkept.count, ?_, hends, ?_⟩
  · intro e he
    obtain ⟨⟨i, o⟩, hx, hax⟩ := List.mem_filterMap.mp (hkept.order.subset (List.mem_append_left _ he))
    obtain ⟨d, id, rfl, hsigned⟩ := Platform.signed_of_accepted hax
    exact ⟨d, id, o, hx, hax, hsigned⟩
  · intro hphase hinbox
    obtain ⟨e, channel, hrecv⟩ := Mailbox.recv_of_inbox (by decide) hinbox
    refine ⟨e, ?_⟩
    rw [step_receive hphase, IntegrationRuntime.receive, hsource]
    simp only [hrecv, IntegrationRuntime.received]

/-! ### Runtimes from configurations -/

/-- The connectors of a configuration do not start, and only the stub is no channel. -/
structure Configured (name : String) (input : Connector) : Prop where
  start : input.start = .nothing
  channel : name ≠ "whatsapp" → input.receive = .channel
  stub : name = "whatsapp" → input.receive = .never whatsAppError

/-- Nothing has come in, and nothing can. The loop is ended by the stub only. -/
structure Deaf (name : String) (s : Bridge) : Prop where
  listener : s.listener = .absent
  channel : s.channel.inbox = []
  phase : s.phase = .starting ∨ s.phase = .receiving ∨
    s.phase = .ended (.error (.input whatsAppError)) ∧ name = "whatsapp"

/-- What a deaf runtime with this input makes of what comes: it refuses the requests, and the stub ends the loop. -/
inductive Idles (name : String) : Input → Output → Prop where
  | refused (d : Delivery) (id : String) : Idles name (.delivery d id) .refused
  | nothing {i : Input} (h : i.isDelivery = false) : Idles name i .nothing
  | started : Idles name .start .started
  | stopped (h : name = "whatsapp") : Idles name .receive (.stopped (.error (.input whatsAppError)))

variable {name : String}

/-- What a deaf runtime takes from its input. -/
theorem Deaf.receive (hinput : Configured name rt.input) (hdeaf : Deaf name s) :
    IntegrationRuntime.receive rt s = if name = "whatsapp" then
      IntegrationRuntime.stop s (.error (.input whatsAppError)) else (.nothing, s) := by
  unfold IntegrationRuntime.receive
  by_cases hname : name = "whatsapp"
  · rw [hinput.stub hname, if_pos hname]
    rfl
  · have hnone : s.channel.recv = none := by
      cases hrecv : s.channel.recv with
      | none => rfl
      | some x =>
        have hinbox := hdeaf.channel
        rw [Mailbox.inbox_recv hrecv] at hinbox
        cases hinbox
    simp only [hinput.channel hname, hnone, if_neg hname]

theorem Deaf.step (hinput : Configured name rt.input) (hdeaf : Deaf name s) (i : Input) :
    Deaf name (rt.step s i).2 ∧ Idles name i (rt.step s i).1 := by
  obtain ⟨hlistener, hchannel, hphase⟩ := id hdeaf
  have hquiet : ∀ {i : Input}, i.isDelivery = false → Deaf name s ∧ Idles name i .nothing := fun h => ⟨hdeaf, .nothing h⟩
  have hnostdin : rt.input.receive ≠ .stdin := by
    by_cases hname : name = "whatsapp"
    · rw [hinput.stub hname]
      nofun
    · rw [hinput.channel hname]
      nofun
  unfold IntegrationRuntime.step
  cases i with
  | delivery d id =>
    rw [hlistener]
    exact ⟨hdeaf, .refused d id⟩
  | hangUp place =>
    have hnone : s.channel.waiting = [] := (List.append_eq_nil_iff.mp hchannel).2
    simp only [hnone, List.length_nil, Nat.not_lt_zero, if_false]
    exact hquiet rfl
  | bind free =>
    simp only [hlistener]
    exact hquiet rfl
  | start =>
    rcases hphase with hphase | hphase | ⟨hphase, -⟩
    · simp only [hphase, hinput.start]
      exact ⟨⟨rfl, hchannel, .inr (.inl rfl)⟩, .started⟩
    · simp only [hphase]
      exact hquiet rfl
    · simp only [hphase]
      exact hquiet rfl
  | receive =>
    rcases hphase with hphase | hphase | ⟨hphase, -⟩
    · simp only [hphase]
      exact hquiet rfl
    · simp only [hphase, hdeaf.receive hinput]
      split
      · rename_i hname
        exact ⟨⟨hlistener, hchannel, .inr (.inr ⟨rfl, hname⟩)⟩, .stopped hname⟩
      · exact hquiet rfl
    · simp only [hphase]
      exact hquiet rfl
  | line read id =>
    rcases hphase with hphase | hphase | ⟨hphase, -⟩
    · simp only [hphase]
      exact hquiet rfl
    · have hline : IntegrationRuntime.readLine rt s read id = (.nothing, s) := by
        unfold IntegrationRuntime.readLine
        split
        · rename_i h
          exact absurd h hnostdin
        · rename_i h
          exact absurd h hnostdin
        · rfl
      simp only [hphase, hline]
      exact hquiet rfl
    · simp only [hphase]
      exact hquiet rfl
  | handled response | sent outcome =>
    rcases hphase with hphase | hphase | ⟨hphase, -⟩ <;>
    · simp only [hphase]
      exact hquiet rfl

namespace IntegrationRuntime

variable {env : String → Option String} {config : IntegrationConfig}

theorem section?_ok {α : Type} {name : String} {cfg : Option α} {connector : α → Except IntegrationError Connector}
    {l : List (String × Connector)} (h : section? name cfg connector = .ok l) :
    ∀ e ∈ l, e.1 = name ∧ ∃ a, connector a = .ok e.2 := by
  cases cfg with
  | none =>
    cases h
    simp
  | some a =>
    obtain ⟨c, hc, h⟩ := bind_ok h
    cases h
    simpa using ⟨a, hc⟩

/-- Only the connector that is a stub has no channel. -/
theorem built_sources {l : List (String × Connector)} (h : built jt cr env config = .ok l) :
    ∀ e ∈ l, (e.1 ≠ "whatsapp" → e.2.receive = .channel) ∧ (e.1 = "whatsapp" → e.2.receive = .never whatsAppError) := by
  obtain ⟨slack, hslack, h⟩ := bind_ok h
  obtain ⟨github, hgithub, h⟩ := bind_ok h
  obtain ⟨whatsapp, hwhatsapp, h⟩ := bind_ok h
  cases h
  rintro ⟨name, c⟩ he
  simp only [List.mem_append] at he
  rcases he with (he | he) | he
  · obtain ⟨hname, cfg, hc⟩ := section?_ok hslack _ he
    obtain ⟨token, -, hc⟩ := bind_ok hc
    obtain ⟨secret, -, hc⟩ := bind_ok hc
    cases hc
    exact ⟨fun _ => rfl, fun h => absurd (hname.symm.trans h) (by decide)⟩
  · obtain ⟨hname, cfg, hc⟩ := section?_ok hgithub _ he
    obtain ⟨token, -, hc⟩ := bind_ok hc
    obtain ⟨secret, -, hc⟩ := bind_ok hc
    cases hc
    exact ⟨fun _ => rfl, fun h => absurd (hname.symm.trans h) (by decide)⟩
  · obtain ⟨hname, cfg, hc⟩ := section?_ok hwhatsapp _ he
    obtain ⟨key, -, hc⟩ := bind_ok hc
    obtain ⟨phone, -, hc⟩ := bind_ok hc
    cases hc
    exact ⟨fun hne => absurd hname hne, fun _ => rfl⟩

theorem connectorNamed_ok {role : String} {l : List (String × Connector)} {name : String} {c : Connector}
    (h : connectorNamed role l name = .ok c) : ∃ e ∈ l, e.1 = name ∧ c = e.2.arc := by
  unfold connectorNamed at h
  split at h
  · rename_i e he
    cases h
    exact ⟨e, List.mem_of_find?_eq_some he, by simpa using List.find?_some he, rfl⟩
  · cases h

theorem fromParsedConfig_ok {rt : IntegrationRuntime} (h : fromParsedConfig jt cr env config = .ok rt) :
    Configured config.input rt.input := by
  obtain ⟨l, hl, h⟩ := bind_ok h
  obtain ⟨input, hinput, h⟩ := bind_ok h
  obtain ⟨outputs, -, h⟩ := bind_ok h
  cases h
  obtain ⟨e, he, hname, rfl⟩ := connectorNamed_ok hinput
  obtain ⟨hchannel, hstub⟩ := built_sources hl e he
  exact ⟨rfl, hname ▸ hchannel, hname ▸ hstub⟩

end IntegrationRuntime

/-- A runtime that is made from a configuration never hears of anything: the connectors are behind an `Arc`, whose
`start` does not start them. No listener is spawned, every request is refused, no event is taken and nothing is sent.
Its loop waits for ever, unless its input is the stub, which ends it with its error. -/
theorem configured_deaf (jt : JsonTexts) (cr : Crypto) (env : String → Option String) (config : IntegrationConfig)
    (rt : IntegrationRuntime) (h : IntegrationRuntime.fromConfig jt cr env (.content (.ok config)) = .ok rt)
    (inputs : List Input) :
    let s := rt.machine.run .fresh inputs
    (∀ x ∈ rt.machine.history .fresh inputs, Idles config.input x.1 x.2) ∧
      s.listener = .absent ∧ s.channel.inbox = [] ∧
      (config.input ≠ "whatsapp" → (∀ result, s.phase ≠ .ended result) ∧
        (s.phase = .receiving → rt.step s .receive = (.nothing, s))) ∧
      (config.input = "whatsapp" → (∀ result, s.phase = .ended result → result = .error (.input whatsAppError)) ∧
        (s.phase = .receiving → rt.step s .receive = IntegrationRuntime.stop s (.error (.input whatsAppError)))) := by
  intro s
  have hinput := IntegrationRuntime.fromParsedConfig_ok h
  obtain ⟨hdeaf, hidle⟩ : Deaf config.input s ∧ ∀ x ∈ rt.machine.history .fresh inputs, Idles config.input x.1 x.2 := by
    refine Machine.history_rule (M := rt.machine) (J := fun h s =>
      Deaf config.input s ∧ ∀ x ∈ h, Idles config.input x.1 x.2) ?_ ?_ inputs
    · rintro h s i ⟨hdeaf, hidle⟩
      obtain ⟨hnext, ho⟩ := hdeaf.step hinput i
      refine ⟨hnext, fun x hx => ?_⟩
      rcases List.mem_append.mp hx with hx | hx
      · exact hidle x hx
      · rw [List.mem_singleton.mp hx]
        exact ho
    · exact ⟨⟨rfl, rfl, .inl rfl⟩, by simp⟩
  have hended : ∀ result, s.phase = .ended result → result = .error (.input whatsAppError) ∧ config.input = "whatsapp" := by
    intro result hresult
    rcases hdeaf.phase with hphase | hphase | ⟨hphase, hname⟩
    · rw [hphase] at hresult
      cases hresult
    · rw [hphase] at hresult
      cases hresult
    · rw [hphase] at hresult
      exact ⟨(Phase.ended.inj hresult).symm, hname⟩
  refine ⟨hidle, hdeaf.listener, hdeaf.channel, fun hname => ⟨fun result hresult => hname (hended result hresult).2, ?_⟩,
    fun hname => ⟨fun result hresult => (hended result hresult).1, ?_⟩⟩
  · intro hphase
    rw [step_receive hphase, hdeaf.receive hinput, if_neg hname]
  · intro hphase
    rw [step_receive hphase, hdeaf.receive hinput, if_pos hname]

/-- The configuration of the example assistant. -/
def slackHrAssistant : IntegrationConfig :=
  ⟨"slack", ["slack"], some ⟨3000, "SLACK_BOT_TOKEN", "SLACK_SIGNING_SECRET"⟩, none, none⟩

/-- The example assistant, with these values of its variables. -/
def slackHrRuntime (texts : JsonTexts) (cr : Crypto) : IntegrationRuntime :=
  ⟨(SlackConnector.connector texts cr ⟨"xoxb", "s", 3000⟩).arc, [(SlackConnector.connector texts cr ⟨"xoxb", "s", 3000⟩).arc]⟩

theorem configured_deaf_slack :
    ((slackHrRuntime ⟨fun _ => "", fun _ => .error ⟨"EOF while parsing a value"⟩⟩ ⟨fun _ _ => none⟩).machine.run .fresh
      [.start, .bind true, .receive]).channel.inbox = [] :=
  (configured_deaf ⟨fun _ => "", fun _ => .error ⟨"EOF while parsing a value"⟩⟩ ⟨fun _ _ => none⟩
    (fun name => if name = "SLACK_BOT_TOKEN" then some "xoxb" else if name = "SLACK_SIGNING_SECRET" then some "s" else none)
    slackHrAssistant (slackHrRuntime _ _) rfl [.start, .bind true, .receive]).2.2.1

end AgentVerse.Integration
