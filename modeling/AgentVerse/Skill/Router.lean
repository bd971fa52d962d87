import Mathlib.Algebra.Order.Ring.Rat
import AgentVerse.Core.Unicode
import AgentVerse.Skill.Registry

/-!
# Routing by keywords

`KeywordOverlapRouter::route` takes the first candidate that the message names, and otherwise the last one with the
best score. Scores are fractions. The answer is the same for every order of the candidates exactly if one candidate
alone is recognized, or none is and the best score is not shared; a candidate that is named without being recognized
is answered only if it has that score (`route_decided_iff`).
-/

namespace AgentVerse

/-! ### The greatest element -/

section MaxBy

variable {α β : Type} [LinearOrder β] (key : α → β)

/-- The greater of two elements, the second one if they are equal. -/
def laterMax (best : Option α) (x : α) : Option α :=
  match best with
  | none => some x
  | some b => if key x < key b then some b else some x

/-- `Iterator::max_by`, which returns the last element if several are equally maximum. -/
def maxBy (xs : List α) : Option α := xs.foldl (laterMax key) none

theorem maxBy_append (xs : List α) (x : α) : maxBy key (xs ++ [x]) = laterMax key (maxBy key xs) x :=
  List.foldl_append ..

variable {key} {xs : List α} {b x : α}

theorem maxBy_isSome (key : α → β) (h : xs ≠ []) : ∃ b, maxBy key xs = some b := by
  cases xs using List.reverseRecOn with
  | nil => exact absurd rfl h
  | append_singleton xs x =>
    rw [maxBy_append]
    cases maxBy key xs with
    | none => exact ⟨x, rfl⟩
    | some b =>
      by_cases hlt : key x < key b
      · exact ⟨b, if_pos hlt⟩
      · exact ⟨x, if_neg hlt⟩

theorem maxBy_max (h : maxBy key xs = some b) : b ∈ xs ∧ ∀ x ∈ xs, key x ≤ key b := by
  induction xs using List.reverseRecOn generalizing b with
  | nil => cases h
  | append_singleton xs x ih =>
    rw [maxBy_append] at h
    have hlast : x ∈ xs ++ [x] := List.mem_append_right _ (List.mem_singleton_self _)
    cases hxs : maxBy key xs with
    | none =>
      rw [hxs] at h
      cases h
      have hnil : xs = [] := by
        by_contra hne
        obtain ⟨b, hb⟩ := maxBy_isSome key hne
        rw [hxs] at hb
        cases hb
      rw [hnil]
      simp
    | some b' =>
      obtain ⟨hmem, hmax⟩ := ih hxs
      rw [hxs] at h
      by_cases hlt : key x < key b'
      · obtain rfl : b' = b := by simpa [laterMax, hlt] using h
        refine ⟨List.mem_append_left _ hmem, fun y hy => ?_⟩
        rcases List.mem_append.mp hy with hy | hy
        · exact hmax y hy
        · rw [List.mem_singleton.mp hy]
          exact le_of_lt hlt
      · obtain rfl : x = b := by simpa [laterMax, hlt] using h
        refine ⟨hlast, fun y hy => ?_⟩
        rcases List.mem_append.mp hy with hy | hy
        · exact le_trans (hmax y hy) (not_lt.mp hlt)
        · rw [List.mem_singleton.mp hy]

/-- A greatest element that comes last is taken. -/
theorem maxBy_last (h : ∀ y ∈ xs, key y ≤ key x) : maxBy key (xs ++ [x]) = some x := by
  rw [maxBy_append]
  cases hxs : maxBy key xs with
  | none => rfl
  | some b => exact if_neg (not_lt.mpr (h b (maxBy_max hxs).1))

theorem maxBy_map {γ : Type} (f : γ → α) (xs : List γ) : maxBy key (xs.map f) = (maxBy (key ∘ f) xs).map f := by
  induction xs using List.reverseRecOn with
  | nil => rfl
  | append_singleton xs x ih =>
    rw [List.map_append, List.map_singleton, maxBy_append, maxBy_append, ih]
    cases maxBy (key ∘ f) xs with
    | none => rfl
    | some b =>
      by_cases hlt : key (f x) < key (f b)
      · simp [laterMax, hlt]
      · simp [laterMax, hlt]

end MaxBy

/-! ### The router -/

namespace Routing

/-- The part of a message's words that a target has. -/
def keywordOverlap (u : Unicode) (message target : String) : ℚ :=
  let msgWords := (u.words message).dedup
  if msgWords.isEmpty then 0
  else
    let targetWords := (u.words target).dedup
    let found := (msgWords.filter fun w => targetWords.contains w).length
    found / msgWords.length

structure KeywordOverlapRouter where
  threshold : ℚ

namespace KeywordOverlapRouter

variable (router : KeywordOverlapRouter) (u : Unicode)

/-- What is stripped from the ends of a token. -/
def stripped (c : Char) : Bool := !u.isAlphanumeric c && c != '-'

/-- A token of the message, once it is stripped, is the id. -/
def recognizes (message : String) (skill : Skill) : Bool :=
  let skillId := (u.toLowercase skill.id).toList
  (splitWhitespace (u.toLowercase message).toList).any fun w => trimMatches (stripped u) w = skillId

def score (message : String) (skill : Skill) : ℚ :=
  keywordOverlap u (u.toLowercase message) (u.toLowercase (skill.id ++ " " ++ skill.description))

def route (message : String) (candidates : List Skill) : Option SkillId :=
  match candidates.find? (recognizes u message) with
  | some skill => some skill.id
  | none =>
    let scored := candidates.map fun skill => (score u message skill, skill.id)
    (maxBy Prod.fst (scored.filter fun x => router.threshold ≤ x.1)).map Prod.snd

/-! ### Naming a skill -/

variable {router u} {message : String} {candidates : List Skill} {skill : Skill}

/-- A token of the message is the id, up to case and what is not alphanumeric at its ends. -/
def Named (u : Unicode) (message : String) (skill : Skill) : Prop :=
  ∃ w ∈ splitWhitespace (u.toLowercase message).toList, ∃ pre post,
    (∀ c ∈ pre, u.isAlphanumeric c = false) ∧ (∀ c ∈ post, u.isAlphanumeric c = false) ∧
      w = pre ++ (u.toLowercase skill.id).toList ++ post

/-- A skill is recognized by tokens that are its id between stripped characters, if it does not lose an end itself. -/
theorem recognizes_iff : recognizes u message skill = true ↔
    Bare (stripped u) (u.toLowercase skill.id).toList ∧
      ∃ w ∈ splitWhitespace (u.toLowercase message).toList, ∃ pre post,
        (∀ c ∈ pre, stripped u c = true) ∧ (∀ c ∈ post, stripped u c = true) ∧
          w = pre ++ (u.toLowercase skill.id).toList ++ post := by
  unfold recognizes
  simp only [List.any_eq_true, decide_eq_true_eq, trimMatches_eq_iff]
  constructor
  · rintro ⟨w, hw, hbare, hstrip⟩
    exact ⟨hbare, w, hw, hstrip⟩
  · rintro ⟨hbare, w, hw, hstrip⟩
    exact ⟨w, hw, hbare, hstrip⟩

theorem not_alphanumeric_of_stripped {c : Char} (h : stripped u c = true) : u.isAlphanumeric c = false := by
  unfold stripped at h
  rw [Bool.and_eq_true, Bool.not_eq_true'] at h
  exact h.1

theorem named_of_recognizes (h : recognizes u message skill = true) : Named u message skill := by
  obtain ⟨_, w, hw, pre, post, hpre, hpost, heq⟩ := recognizes_iff.mp h
  exact ⟨w, hw, pre, post, fun c hc => not_alphanumeric_of_stripped (hpre c hc),
    fun c hc => not_alphanumeric_of_stripped (hpost c hc), heq⟩

/-! ### The answer -/

/-- The skill passes the threshold and no candidate scores better. -/
def Leads (router : KeywordOverlapRouter) (u : Unicode) (message : String) (candidates : List Skill)
    (skill : Skill) : Prop :=
  skill ∈ candidates ∧ router.threshold ≤ score u message skill ∧
    ∀ s ∈ candidates, score u message s ≤ score u message skill

theorem route_recognized (h : recognizes u message skill = true) (rest : List Skill) :
    router.route u message (skill :: rest) = some skill.id := by
  unfold route
  rw [List.find?_cons_of_pos h]

/-- A recognized candidate is answered if there is one. -/
theorem route_find (router : KeywordOverlapRouter) (h : ∃ s ∈ candidates, recognizes u message s = true) :
    ∃ s ∈ candidates, recognizes u message s = true ∧ router.route u message candidates = some s.id := by
  obtain ⟨s, hs, hrec⟩ := h
  unfold route
  cases hfind : candidates.find? (recognizes u message) with
  | none => exact absurd hrec (List.find?_eq_none.mp hfind s hs)
  | some s' => exact ⟨s', List.mem_of_find?_eq_some hfind, List.find?_some hfind, rfl⟩

/-- Otherwise the scores decide. -/
theorem route_scores (h : ∀ s ∈ candidates, recognizes u message s = false) :
    router.route u message candidates =
      (maxBy (score u message) (candidates.filter fun s => router.threshold ≤ score u message s)).map (·.id) := by
  have hfind : candidates.find? (recognizes u message) = none :=
    List.find?_eq_none.mpr fun s hs => by rw [h s hs]; exact Bool.false_ne_true
  unfold route
  rw [hfind]
  dsimp only
  rw [List.filter_map, maxBy_map, Option.map_map]
  rfl

theorem route_leads (router : KeywordOverlapRouter) (h : ∀ s ∈ candidates, recognizes u message s = false) :
    (∃ s, router.Leads u message candidates s ∧ router.route u message candidates = some s.id) ∨
      (∀ s ∈ candidates, score u message s < router.threshold) ∧ router.route u message candidates = none := by
  rw [route_scores h]
  cases hmax : maxBy (score u message) (candidates.filter fun s => router.threshold ≤ score u message s) with
  | none =>
    refine .inr ⟨fun s hs => not_le.mp fun hle => ?_, rfl⟩
    have hne : candidates.filter (fun s => router.threshold ≤ score u message s) ≠ [] :=
      List.ne_nil_of_mem (List.mem_filter.mpr ⟨hs, decide_eq_true hle⟩)
    obtain ⟨b, hb⟩ := maxBy_isSome (score u message) hne
    rw [hmax] at hb
    cases hb
  | some s =>
    obtain ⟨hmem, hbest⟩ := maxBy_max hmax
    obtain ⟨hs, hpass⟩ := List.mem_filter.mp hmem
    refine .inl ⟨s, ⟨hs, of_decide_eq_true hpass, fun t ht => ?_⟩, rfl⟩
    -- what does not pass the threshold scores less than what does
    by_cases hle : router.threshold ≤ score u message t
    · exact hbest t (List.mem_filter.mpr ⟨ht, decide_eq_true hle⟩)
    · exact le_trans (le_of_lt (not_le.mp hle)) (of_decide_eq_true hpass)

/-- A leading candidate that comes last is answered. -/
theorem route_last {rest : List Skill} (hrec : ∀ s ∈ rest ++ [skill], recognizes u message s = false)
    (h : router.Leads u message (rest ++ [skill]) skill) :
    router.route u message (rest ++ [skill]) = some skill.id := by
  rw [route_scores hrec, List.filter_append, List.filter_singleton, decide_eq_true h.2.1, cond_true, maxBy_last]
  · rfl
  · intro t ht
    exact h.2.2 t (List.mem_append_left _ (List.mem_filter.mp ht).1)

/-- The answer is the id of a candidate. -/
theorem route_mem {id : SkillId} (h : router.route u message candidates = some id) : ∃ s ∈ candidates, s.id = id := by
  by_cases hrec : ∃ s ∈ candidates, recognizes u message s = true
  · obtain ⟨s, hs, _, hroute⟩ := route_find router hrec
    exact ⟨s, hs, Option.some.inj (hroute.symm.trans h)⟩
  · have hnone : ∀ s ∈ candidates, recognizes u message s = false :=
      fun s hs => Bool.eq_false_iff.mpr fun hsrec => hrec ⟨s, hs, hsrec⟩
    rcases route_leads router hnone with ⟨s, hs, hroute⟩ | ⟨_, hroute⟩
    · exact ⟨s, hs.1, Option.some.inj (hroute.symm.trans h)⟩
    · rw [hroute] at h
      cases h

/-! ### Every order of the candidates -/

/-- One candidate alone is recognized. Or none is, no two of them lead, and if one is named then such a one leads. -/
def Decided (router : KeywordOverlapRouter) (u : Unicode) (message : String) (candidates : List Skill) : Prop :=
  (∃ s ∈ candidates, recognizes u message s = true ∧ ∀ t ∈ candidates, recognizes u message t = true → t = s) ∨
    (∀ s ∈ candidates, recognizes u message s = false) ∧
      (∀ s t, router.Leads u message candidates s → router.Leads u message candidates t → s = t) ∧
      ((∃ s ∈ candidates, Named u message s) → ∃ s, router.Leads u message candidates s ∧ Named u message s)

variable {order : List Skill}

theorem Leads.perm (h : router.Leads u message candidates skill) (hperm : candidates.Perm order) :
    router.Leads u message order skill :=
  ⟨hperm.mem_iff.mp h.1, h.2.1, fun s hs => h.2.2 s (hperm.mem_iff.mpr hs)⟩

/-- The answer to a decided message, in any order. -/
theorem Decided.route (h : router.Decided u message candidates) (hperm : order.Perm candidates) :
    router.route u message order = router.route u message candidates ∧
      ((∃ s ∈ candidates, Named u message s) →
        ∃ s ∈ candidates, Named u message s ∧ router.route u message order = some s.id) := by
  rcases h with ⟨s, hs, hrec, hunique⟩ | ⟨hnone, hunique, hnamed⟩
  · -- every order finds the one that is recognized
    have hroute : ∀ l : List Skill, l.Perm candidates → router.route u message l = some s.id := by
      intro l hl
      obtain ⟨t, ht, htrec, hroute⟩ := route_find router ⟨s, hl.mem_iff.mpr hs, hrec⟩
      rw [hroute, hunique t (hl.mem_iff.mp ht) htrec]
    exact ⟨(hroute order hperm).trans (hroute candidates (.refl _)).symm,
      fun _ => ⟨s, hs, named_of_recognizes hrec, hroute order hperm⟩⟩
  · have hnone' : ∀ s ∈ order, recognizes u message s = false := fun s hs => hnone s (hperm.mem_iff.mp hs)
    have hlead : ∀ s, router.Leads u message candidates s → router.route u message order = some s.id := by
      intro s hs
      rcases route_leads router hnone' with ⟨t, ht, hroute⟩ | ⟨hlow, _⟩
      · rw [hroute, hunique t s (ht.perm hperm) hs]
      · exact absurd hs.2.1 (not_le.mpr (hlow s (hs.perm hperm.symm).1))
    refine ⟨?_, fun h => ?_⟩
    · rcases route_leads router hnone with ⟨s, hs, hroute⟩ | ⟨hlow, hroute⟩
      · rw [hlead s hs, hroute]
      · rcases route_leads router hnone' with ⟨t, ht, _⟩ | ⟨_, hroute'⟩
        · exact absurd ht.2.1 (not_le.mpr (hlow t (hperm.mem_iff.mp ht.1)))
        · rw [hroute', hroute]
    · obtain ⟨s, hs, hsnamed⟩ := hnamed h
      exact ⟨s, hs.1, hsnamed, hlead s hs⟩

/-- The answer is the same for every order of the candidates, and a named one where there is one, exactly if the
message is decided. -/
theorem route_decided_iff (router : KeywordOverlapRouter) (u : Unicode) (message : String) (candidates : List Skill)
    (hids : (candidates.map (·.id)).Nodup) :
    (∀ order : List Skill, order.Perm candidates →
      router.route u message order = router.route u message candidates ∧
      ((∃ s ∈ candidates, Named u message s) →
        ∃ s ∈ candidates, Named u message s ∧ router.route u message order = some s.id)) ↔
    router.Decided u message candidates := by
  constructor
  · intro h
    -- two answers that differ in their order only are the same skill
    have hsame : ∀ {s t : Skill} {l l' : List Skill}, s ∈ candidates → t ∈ candidates →
        l.Perm candidates → l'.Perm candidates →
        router.route u message l = some s.id → router.route u message l' = some t.id → s = t := by
      intro s t l l' hs ht hl hl' hroute hroute'
      have hid : some s.id = some t.id := by rw [← hroute, ← hroute', (h l hl).1, (h l' hl').1]
      exact List.inj_on_of_nodup_map hids hs ht (Option.some.inj hid)
    by_cases hrec : ∃ s ∈ candidates, recognizes u message s = true
    · obtain ⟨s, hs, hsrec⟩ := hrec
      refine .inl ⟨s, hs, hsrec, fun t ht htrec => ?_⟩
      exact hsame ht hs (List.perm_cons_erase ht).symm (List.perm_cons_erase hs).symm (route_recognized htrec _)
        (route_recognized hsrec _)
    · have hnone : ∀ s ∈ candidates, recognizes u message s = false :=
        fun s hs => Bool.eq_false_iff.mpr fun hsrec => hrec ⟨s, hs, hsrec⟩
      -- a leading skill is answered when it comes last
      have hlast : ∀ {s : Skill}, router.Leads u message candidates s →
          (candidates.erase s ++ [s]).Perm candidates ∧
            router.route u message (candidates.erase s ++ [s]) = some s.id := by
        intro s hs
        have hperm : (candidates.erase s ++ [s]).Perm candidates :=
          (List.perm_append_singleton ..).trans (List.perm_cons_erase hs.1).symm
        exact ⟨hperm, route_last (fun t ht => hnone t (hperm.mem_iff.mp ht)) (hs.perm hperm.symm)⟩
      refine .inr ⟨hnone, fun s t hs ht => ?_, fun hnamed => ?_⟩
      · exact hsame hs.1 ht.1 (hlast hs).1 (hlast ht).1 (hlast hs).2 (hlast ht).2
      · obtain ⟨s, hs, hsnamed, hroute⟩ := (h candidates (.refl _)).2 hnamed
        rcases route_leads router hnone with ⟨t, ht, hroute'⟩ | ⟨_, hroute'⟩
        · rw [hsame hs ht.1 (.refl _) (.refl _) hroute hroute'] at hsnamed
          exact ⟨t, ht, hsnamed⟩
        · rw [hroute'] at hroute
          cases hroute
  · exact fun h order hperm => h.route hperm

/-- A skill of which only the id and the description matter. -/
def described (id description : String) : Skill := ⟨id, description, [], "", [], none, [], false, []⟩

/-- The one skill that is named is answered in the other order, too, whatever the threshold. -/
theorem route_decided_named :
    route ⟨99 / 100⟩ .ascii "write a (code-review) of my code"
      [described "docs-writer" "Write code", described "code-review" "Review code"] = some "code-review" := by
  have hdecided : Decided ⟨99 / 100⟩ .ascii "write a (code-review) of my code"
      [described "code-review" "Review code", described "docs-writer" "Write code"] :=
    .inl ⟨_, List.mem_cons_self, by decide +kernel, by decide +kernel⟩
  rw [((route_decided_iff _ _ _ _ (by decide)).mpr hdecided _ (.swap _ _ [])).1]
  decide +kernel

/-- Of two skills that are named, the first one is answered; a skill whose id ends with punctuation is named in
vain. -/
theorem route_order_dependent :
    route ⟨15 / 100⟩ .ascii "ask hr or it" [described "hr" "People", described "it" "Computers"] = some "hr" ∧
    route ⟨15 / 100⟩ .ascii "ask hr or it" [described "it" "Computers", described "hr" "People"] = some "it" ∧
    Named .ascii "port this to c++" (described "c++" "Systems") ∧
    route ⟨99 / 100⟩ .ascii "port this to c++" [described "c++" "Systems"] = none := by
  refine ⟨by decide +kernel, by decide +kernel, ⟨['c', '+', '+'], by decide +kernel, [], [], ?_⟩, by decide +kernel⟩
  decide +kernel

end KeywordOverlapRouter

end Routing

end AgentVerse
