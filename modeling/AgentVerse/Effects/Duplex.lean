import AgentVerse.Effects.Unwinding

/-!
# Shared connections

Threads share a connection: each puts one item in and then takes one out. The other end answers the items in order, and
nothing ties an answer to its item. So the threads take what the other end sends in the order of their takes, whoever
asked for it (`exchanges_taken`), and an exchange that nobody comes between takes the first item that is outstanding
(`exchange_undisturbed`).
-/

namespace Effects

variable {A B F σ ε α ι : Type}

/-- What a thread does with a connection. -/
inductive Wire (A : Type) where
  | put (a : A)
  | take

/-- Both ways may fail. Nothing is taken at the end of the stream. -/
@[reducible] def WireReply (F B : Type) : Wire A → Type
  | .put _ => Except F Unit
  | .take => Except F (Option B)

/-- The other end of a connection, and the failures of the connection. -/
structure Peer (A B F σ : Type) where
  serve : σ → A → List B × σ
  fault : Nat → Option F

/-- The state of the other end, and what it has sent that nobody took. -/
structure Channel (B σ : Type) where
  peer : σ
  queue : List B
  steps : Nat

namespace Peer

variable (p : Peer A B F σ)

/-- A connection as the environment of programs. -/
def handle : Handler (WireReply F B : Wire A → Type) (Channel B σ)
  | .put a, c =>
    match p.fault c.steps with
    | some e => (.error e, { c with steps := c.steps + 1 })
    | none => (.ok (), ⟨(p.serve c.peer a).2, c.queue ++ (p.serve c.peer a).1, c.steps + 1⟩)
  | .take, c =>
    match p.fault c.steps with
    | some e => (.error e, { c with steps := c.steps + 1 })
    | none =>
      match c.queue with
      | [] => (.ok none, { c with steps := c.steps + 1 })
      | b :: queue => (.ok (some b), ⟨c.peer, queue, c.steps + 1⟩)

/-- What the other end sends for a list of items, and the state it comes to. -/
def serveAll (s : σ) : List A → List B × σ
  | [] => ([], s)
  | a :: as => ((p.serve s a).1 ++ (serveAll (p.serve s a).2 as).1, (serveAll (p.serve s a).2 as).2)

theorem serveAll_append (s : σ) (as bs : List A) : p.serveAll s (as ++ bs) =
    ((p.serveAll s as).1 ++ (p.serveAll (p.serveAll s as).2 bs).1, (p.serveAll (p.serveAll s as).2 bs).2) := by
  induction as generalizing s with
  | nil => simp [serveAll]
  | cons a as ih => simp [serveAll, ih]

theorem serveAll_concat (s : σ) (as : List A) (a : A) : p.serveAll s (as ++ [a]) =
    ((p.serveAll s as).1 ++ (p.serve (p.serveAll s as).2 a).1, (p.serve (p.serveAll s as).2 a).2) := by
  rw [serveAll_append]
  simp [serveAll]

/-- One item is sent for each one that came. -/
theorem length_serveAll {as : List A} (h : ∀ a ∈ as, ∀ s, (p.serve s a).1.length = 1) (s : σ) :
    (p.serveAll s as).1.length = as.length := by
  induction as generalizing s with
  | nil => rfl
  | cons a as ih =>
    rw [serveAll, List.length_append, h a (List.mem_cons_self ..), ih fun a' ha' => h a' (List.mem_cons_of_mem _ ha'),
      List.length_cons, Nat.add_comm]

/-- What is sent for the item at a place stands at the same place. -/
theorem serveAll_at {as : List A} (h : ∀ a ∈ as, ∀ s, (p.serve s a).1.length = 1) (s : σ) {k : Nat} {a : A}
    (hk : as[k]? = some a) {own : B} (hown : (p.serve (p.serveAll s (as.take k)).2 a).1 = [own]) :
    (p.serveAll s as).1[k]? = some own := by
  obtain ⟨hlt, hget⟩ := List.getElem?_eq_some_iff.mp hk
  have hsplit : as = as.take k ++ a :: as.drop (k + 1) := by
    rw [← hget, List.getElem_cons_drop hlt, List.take_append_drop]
  have hlen : (p.serveAll s (as.take k)).1.length = k := by
    rw [p.length_serveAll (fun a' ha' => h a' (List.mem_of_mem_take ha')), List.length_take]
    omega
  rw [hsplit, serveAll_append]
  simp only [serveAll, hown]
  rw [List.getElem?_append_right (Nat.le_of_eq hlen), hlen, Nat.sub_self]
  rfl

end Peer

/-! ### Traces -/

/-- The items that went out, with their threads, in order. -/
def puts (t : List (ι × Step (WireReply F B : Wire A → Type))) : List (ι × A) := t.filterMap fun
  | (i, ⟨.put a, .ok _⟩) => some (i, a)
  | _ => none

/-- The items that came in, with the threads that took them, in order. -/
def takes (t : List (ι × Step (WireReply F B : Wire A → Type))) : List (ι × B) := t.filterMap fun
  | (i, ⟨.take, .ok (some b)⟩) => some (i, b)
  | _ => none

section Traces

variable {t : List (ι × Step (WireReply F B : Wire A → Type))} {i : ι}

theorem puts_ok (a : A) (u : Unit) : puts (t ++ [(i, ⟨.put a, .ok u⟩)]) = puts t ++ [(i, a)] := by simp [puts]
theorem puts_error (a : A) (e : F) : puts (t ++ [(i, ⟨.put a, .error e⟩)]) = puts t := by simp [puts]
theorem puts_take (r : Except F (Option B)) : puts (t ++ [(i, ⟨.take, r⟩)]) = puts t := by simp [puts]
theorem takes_put (a : A) (r : Except F Unit) : takes (t ++ [(i, ⟨.put a, r⟩)]) = takes t := by simp [takes]
theorem takes_some (b : B) : takes (t ++ [(i, ⟨.take, .ok (some b)⟩)]) = takes t ++ [(i, b)] := by simp [takes]
theorem takes_none : takes (t ++ [(i, ⟨.take, .ok none⟩)]) = takes t := by simp [takes]
theorem takes_error (e : F) : takes (t ++ [(i, ⟨.take, .error e⟩)]) = takes t := by simp [takes]

end Traces

/-- The connection was in state `s` with `stale` in its queue, and is where the items since then bring it. -/
structure Balanced (p : Peer A B F σ) (s : σ) (stale : List B)
    (v : View ι (WireReply F B : Wire A → Type) (Channel B σ)) : Prop where
  peer : v.state.peer = (p.serveAll s ((puts v.trace).map Prod.snd)).2
  queue : (takes v.trace).map Prod.snd ++ v.state.queue = stale ++ (p.serveAll s ((puts v.trace).map Prod.snd)).1

variable {p : Peer A B F σ} {s : σ} {stale : List B}
  {v : View ι (WireReply F B : Wire A → Type) (Channel B σ)}

/-- Whatever a thread does, the connection stays balanced. -/
theorem Balanced.after (h : Balanced p s stale v) (i : ι) (q : Wire A) : Balanced p s stale (v.after p.handle i q) := by
  obtain ⟨hpeer, hqueue⟩ := h
  unfold View.after
  cases q with
  | put a =>
    simp only [Peer.handle]
    cases p.fault v.state.steps with
    | some e => exact ⟨by rwa [puts_error], by rwa [puts_error, takes_put]⟩
    | none =>
      refine ⟨?_, ?_⟩
      · simp only [puts_ok, List.map_append, List.map_cons, List.map_nil, Peer.serveAll_concat, hpeer]
      · simp only [puts_ok, takes_put, List.map_append, List.map_cons, List.map_nil, Peer.serveAll_concat, ← hpeer]
        rw [← List.append_assoc, hqueue, List.append_assoc]
  | take =>
    simp only [Peer.handle]
    cases p.fault v.state.steps with
    | some e => exact ⟨by rwa [puts_take], by rwa [puts_take, takes_error]⟩
    | none =>
      cases hq : v.state.queue with
      | nil =>
        rw [hq] at hqueue
        exact ⟨by rwa [puts_take], by simpa [puts_take, takes_none] using hqueue⟩
      | cons b queue =>
        rw [hq] at hqueue
        exact ⟨by rwa [puts_take], by simpa [puts_take, takes_some] using hqueue⟩

/-! ### Exchanges -/

/-- Put an item in and take one out. -/
def exchange (a : A) (broken : F → ε) (read : Except F (Option B) → Except ε α) :
    Prog (Wire A) (WireReply F B) ε α :=
  .ask (.put a) fun
    | .error e => .fail (broken e)
    | .ok () => .ask .take fun r => .lift (read r)

theorem exchange_bind (a : A) (broken : F → ε) (read : Except F (Option B) → Except ε α) {β : Type} (f : α → Except ε β) :
    (exchange a broken read >>= fun x => .lift (f x)) = exchange a broken fun r => (read r).bind f := by
  refine congrArg (Prog.ask _) (funext fun r => ?_)
  cases r with
  | error e => rfl
  | ok u =>
    refine congrArg (Prog.ask _) (funext fun r => ?_)
    dsimp only
    cases read r <;> rfl

/-- A thread that has had no turn is where it began. -/
theorem Pool.run_other [DecidableEq ι] {Q S : Type} {R : Q → Type} {h : Handler R S} {P : Pool ι R S ε α}
    {schedule : List ι} {i : ι} (hi : i ∉ schedule) : (P.run h schedule).threads i = P.threads i := by
  induction schedule generalizing P with
  | nil => rfl
  | cons j schedule ih =>
    rw [Pool.run_cons, ih (List.not_mem_of_not_mem_cons hi), Pool.step]
    split
    · exact Function.update_of_ne (List.ne_of_not_mem_cons hi) ..
    · rfl

/-- How far the exchange of a thread has come. -/
inductive Stage (i : ι) (a : A) (broken : F → ε) (read : Except F (Option B) → Except ε α)
    (t : List (ι × Step (WireReply F B : Wire A → Type))) : Prog (Wire A) (WireReply F B) ε α → Prop where
  | fresh (hputs : i ∉ (puts t).map Prod.fst) (htakes : i ∉ (takes t).map Prod.fst) :
    Stage i a broken read t (exchange a broken read)
  | waiting (htakes : i ∉ (takes t).map Prod.fst) : Stage i a broken read t (.ask .take fun r => .lift (read r))
  | refused {e : ε} (htakes : i ∉ (takes t).map Prod.fst) : Stage i a broken read t (.fail e)
  | ended {r : Except F (Option B)} (htakes : ∀ b, (i, b) ∈ takes t → r = .ok (some b)) :
    Stage i a broken read t (.lift (read r))

variable {items : ι → A} {broken : F → ε} {read : ι → Except F (Option B) → Except ε α}

/-- The threads of a pool exchange items over a balanced connection. -/
structure Exchanging (p : Peer A B F σ) (s : σ) (stale : List B) (items : ι → A) (broken : F → ε)
    (read : ι → Except F (Option B) → Except ε α) (P : Pool ι (WireReply F B : Wire A → Type) (Channel B σ) ε α) :
    Prop where
  balanced : Balanced p s stale P.view
  stage : ∀ i, Stage i (items i) broken (read i) P.view.trace (P.threads i)
  put_once : ((puts P.view.trace).map Prod.fst).Nodup
  taken_once : ((takes P.view.trace).map Prod.fst).Nodup
  own : ∀ i a, (i, a) ∈ puts P.view.trace → a = items i

/-- What another thread does leaves the stage of a thread alone. -/
theorem Stage.other {i j : ι} {a : A} {read : Except F (Option B) → Except ε α}
    {t : List (ι × Step (WireReply F B : Wire A → Type))} {P : Prog (Wire A) (WireReply F B) ε α}
    (h : Stage i a broken read t P) (hne : j ≠ i) (x : Step (WireReply F B : Wire A → Type)) :
    Stage i a broken read (t ++ [(j, x)]) P := by
  have hputs : i ∈ (puts (t ++ [(j, x)])).map Prod.fst → i ∈ (puts t).map Prod.fst := by
    obtain ⟨q, r⟩ := x
    cases q with
    | put a' =>
      cases r with
      | error e => rw [puts_error]; exact id
      | ok u => simp [puts_ok, Ne.symm hne]
    | take => rw [puts_take]; exact id
  have htakes : ∀ b, (i, b) ∈ takes (t ++ [(j, x)]) → (i, b) ∈ takes t := by
    obtain ⟨q, r⟩ := x
    intro b
    cases q with
    | put a' => rw [takes_put]; exact id
    | take =>
      cases r with
      | error e => rw [takes_error]; exact id
      | ok r =>
        cases r with
        | none => rw [takes_none]; exact id
        | some b' => simp [takes_some, Ne.symm hne]
  have hnot : i ∉ (takes t).map Prod.fst → i ∉ (takes (t ++ [(j, x)])).map Prod.fst := by
    intro h hmem
    obtain ⟨⟨_, b⟩, hb, rfl⟩ := List.mem_map.mp hmem
    exact h (List.mem_map.mpr ⟨_, htakes b hb, rfl⟩)
  cases h with
  | fresh h₁ h₂ => exact .fresh (fun h => h₁ (hputs h)) (hnot h₂)
  | waiting h => exact .waiting (hnot h)
  | refused h => exact .refused (hnot h)
  | ended h => exact .ended fun b hb => h b (htakes b hb)

variable [DecidableEq ι] {P : Pool ι (WireReply F B : Wire A → Type) (Channel B σ) ε α}

/-- The turn of a thread, and the stage it comes to. -/
theorem Exchanging.ask (h : Exchanging p s stale items broken read P) (i : ι) {q : Wire A}
    {k : WireReply F B q → Prog (Wire A) (WireReply F B) ε α} (hi : P.threads i = .ask q k)
    (hstage : Stage i (items i) broken (read i) (P.view.after p.handle i q).trace (k (p.handle q P.view.state).1))
    (hput : ((puts (P.view.after p.handle i q).trace).map Prod.fst).Nodup)
    (htaken : ((takes (P.view.after p.handle i q).trace).map Prod.fst).Nodup)
    (hown : ∀ j a, (j, a) ∈ puts (P.view.after p.handle i q).trace → a = items j) :
    Exchanging p s stale items broken read (P.step p.handle i) := by
  rw [Pool.step_ask hi]
  refine ⟨h.balanced.after i q, fun j => ?_, hput, htaken, hown⟩
  by_cases hj : j = i
  · subst hj
    simpa using hstage
  · simp only [Function.update_of_ne hj]
    exact (h.stage j).other (Ne.symm hj) _

/-- One turn of a pool of exchanges. -/
theorem Exchanging.step (h : Exchanging p s stale items broken read P) (i : ι) :
    Exchanging p s stale items broken read (P.step p.handle i) := by
  have hstage := h.stage i
  generalize ht : P.threads i = pr at hstage
  cases hstage with
  | refused _ => rw [Pool.step_ended fun q k hq => by rw [ht] at hq; cases hq]; exact h
  | @ended r _ =>
    rw [Pool.step_ended fun q k hq => by rw [ht] at hq; cases hr : read i r <;> rw [hr] at hq <;> cases hq]
    exact h
  | fresh hputs htakes =>
    have htaken : takes (P.view.after p.handle i (.put (items i))).trace = takes P.view.trace := takes_put ..
    refine h.ask i ht ?_ ?_ (by rw [htaken]; exact h.taken_once) ?_
    · rw [View.after_trace]
      cases (p.handle (.put (items i)) P.view.state).1 with
      | error e => exact .refused (by rwa [takes_put])
      | ok u => exact .waiting (by rwa [takes_put])
    · rw [View.after_trace]
      cases (p.handle (.put (items i)) P.view.state).1 with
      | error e => rw [puts_error]; exact h.put_once
      | ok u =>
        rw [puts_ok, List.map_append, List.nodup_append]
        exact ⟨h.put_once, by simp, by simpa using fun j hj => ne_of_mem_of_not_mem hj hputs⟩
    · rw [View.after_trace]
      cases (p.handle (.put (items i)) P.view.state).1 with
      | error e => rw [puts_error]; exact h.own
      | ok u =>
        intro j a hmem
        rw [puts_ok] at hmem
        rcases List.mem_append.mp hmem with hmem | hmem
        · exact h.own j a hmem
        · cases List.mem_singleton.mp hmem
          rfl
  | waiting htakes =>
    have hputs : puts (P.view.after p.handle i .take).trace = puts P.view.trace := puts_take ..
    refine h.ask i ht ?_ (by rw [hputs]; exact h.put_once) ?_ (by rw [hputs]; exact h.own)
    · rw [View.after_trace]
      refine .ended fun b hb => ?_
      have hnot : (i, b) ∉ takes P.view.trace := fun h => htakes (List.mem_map.mpr ⟨_, h, rfl⟩)
      revert hb
      match (p.handle .take P.view.state).1 with
      | .error e => rw [takes_error]; exact fun hb => absurd hb hnot
      | .ok none => rw [takes_none]; exact fun hb => absurd hb hnot
      | .ok (some b') =>
        rw [takes_some, List.mem_append]
        rintro (hb | hb)
        · exact absurd hb hnot
        · cases List.mem_singleton.mp hb
          rfl
    · rw [View.after_trace]
      match (p.handle .take P.view.state).1 with
      | .error e => rw [takes_error]; exact h.taken_once
      | .ok none => rw [takes_none]; exact h.taken_once
      | .ok (some b') =>
        rw [takes_some, List.map_append, List.nodup_append]
        exact ⟨h.taken_once, by simp, by simpa using fun j hj => ne_of_mem_of_not_mem hj htakes⟩

/-- A pool of exchanges stays one along every schedule. -/
theorem Exchanging.run (h : Exchanging p s stale items broken read P) (schedule : List ι) :
    Exchanging p s stale items broken read (P.run p.handle schedule) := by
  induction schedule generalizing P with
  | nil => exact h
  | cons i schedule ih => exact ih (h.step i)

omit [DecidableEq ι] in
/-- What is taken is what the other end sent, in the order of the takes, whoever asked for it. -/
theorem exchanges_taken (h : Exchanging p s stale items broken read P) {j : Nat} {i : ι} {b : B}
    (hj : (takes P.view.trace)[j]? = some (i, b)) :
    (stale ++ (p.serveAll s ((puts P.view.trace).map Prod.snd)).1)[j]? = some b ∧
      P.threads i = .lift (read i (.ok (some b))) := by
  have hmem : (i, b) ∈ takes P.view.trace := List.mem_of_getElem? hj
  constructor
  · rw [← h.balanced.queue]
    have hlt : j < ((takes P.view.trace).map Prod.snd).length := by
      rw [List.length_map]
      exact (List.getElem?_eq_some_iff.mp hj).1
    rw [List.getElem?_append_left hlt, List.getElem?_map, hj]
    rfl
  · have hstage := h.stage i
    have htaken : i ∈ (takes P.view.trace).map Prod.fst := List.mem_map.mpr ⟨_, hmem, rfl⟩
    generalize P.threads i = pr at hstage
    cases hstage with
    | fresh _ htakes | waiting htakes | refused htakes => exact absurd htaken htakes
    | ended htakes => rw [htakes b hmem]

omit [DecidableEq ι] in
/-- What is outstanding: what was there at first, and an answer for every item that was put in and not taken out. -/
theorem Exchanging.outstanding (h : Exchanging p s stale items broken read P)
    (hprompt : ∀ i s, (p.serve s (items i)).1.length = 1) :
    (takes P.view.trace).length + P.view.state.queue.length = stale.length + (puts P.view.trace).length := by
  have hlen := congrArg List.length h.balanced.queue
  have hall : ∀ a ∈ (puts P.view.trace).map Prod.snd, ∀ s, (p.serve s a).1.length = 1 := by
    intro a ha
    obtain ⟨⟨i, a⟩, hmem, rfl⟩ := List.mem_map.mp ha
    rw [h.own i a hmem]
    exact hprompt i
  rwa [List.length_append, List.length_append, List.length_map, p.length_serveAll hall, List.length_map] at hlen

omit [DecidableEq ι] in
/-- The place of the answer to an item is that of the item, behind what was there at first. -/
theorem Exchanging.place (h : Exchanging p s stale items broken read P)
    (hprompt : ∀ i s, (p.serve s (items i)).1.length = 1) {k : Nat} {i : ι} {a : A}
    (hk : (puts P.view.trace)[k]? = some (i, a)) {own : B}
    (hown : (p.serve (p.serveAll s (((puts P.view.trace).map Prod.snd).take k)).2 a).1 = [own]) :
    (stale ++ (p.serveAll s ((puts P.view.trace).map Prod.snd)).1)[stale.length + k]? = some own := by
  have hall : ∀ a ∈ (puts P.view.trace).map Prod.snd, ∀ s, (p.serve s a).1.length = 1 := by
    intro a ha
    obtain ⟨⟨i, a⟩, hmem, rfl⟩ := List.mem_map.mp ha
    rw [h.own i a hmem]
    exact hprompt i
  rw [List.getElem?_append_right (Nat.le_add_right ..), Nat.add_sub_cancel_left]
  exact p.serveAll_at hall s (by rw [List.getElem?_map, hk]; rfl) hown

/-- An exchange that nobody comes between takes the first item that is outstanding. -/
theorem exchange_undisturbed {i : ι} {a : A} {read : Except F (Option B) → Except ε α} {own : B}
    (hown : (p.serve P.view.state.peer a).1 = [own]) (hfresh : P.threads i = exchange a broken read)
    (hput : p.fault P.view.state.steps = none) (htake : p.fault (P.view.state.steps + 1) = none) :
    ∃ b rest, P.view.state.queue ++ [own] = b :: rest ∧
      (P.run p.handle [i, i]).threads i = .lift (read (.ok (some b))) ∧
      (P.run p.handle [i, i]).view.state.queue = rest := by
  obtain ⟨b, rest, hsplit⟩ : ∃ b rest, P.view.state.queue ++ [own] = b :: rest :=
    List.exists_cons_of_ne_nil (by simp)
  refine ⟨b, rest, hsplit, ?_, ?_⟩
  all_goals
    rw [Pool.run_cons, Pool.run_cons, Pool.run_nil, Pool.step_ask hfresh]
    rw [Pool.step_ask (k := fun r => .lift (read r)) (q := .take) (by simp [Peer.handle, hput])]
    simp [Peer.handle, hput, htake, hown, hsplit]

end Effects
