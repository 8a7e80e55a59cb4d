import TopicHub.Proofs.Router.Fallback
import TopicHub.Proofs.WatchedTimers

/-!
Room in the memory. Two runs get the same messages, and the memory of one has room for fewer topics.
The known topics stand in for what it has forgotten: rules that always fire and look up settled names
have the same outcomes in both, and the same evaluations on record, unless a rule of another kind takes
their timers away.
-/

namespace TopicHub

open Text

theorem Scripts.resolve_lookup (look look' : String → Option String)
    (invoke : String → String → Except RuleError String) (calculate : String → Except RuleError Scalar)
    (text : List Char) :
    Scripts.resolve ⟨look, invoke, calculate⟩ text =
      Scripts.resolve ⟨look', invoke, calculate⟩ text := rfl

namespace Rule

def unmarked (rule : Rule) : Rule :=
  { rule with lastTrigger := none, evaluationResult := false, evaluationProtocol := none }

/-- Rules outside the group lose their marks. -/
def masked (group : String → Bool) (rule : Rule) : Rule :=
  if group rule.id then rule else rule.unmarked

variable {group : String → Bool} {a b rule : Rule}

theorem unmarked_masked (group : String → Bool) (rule : Rule) :
    (rule.masked group).unmarked = rule.unmarked := by
  unfold masked
  split <;> rfl

theorem unmarked_of_masked (h : a.masked group = b.masked group) : a.unmarked = b.unmarked := by
  rw [← unmarked_masked group a, h, unmarked_masked]

theorem of_unmarked (h : a.unmarked = b.unmarked) : a.id = b.id ∧ a.project = b.project ∧
    a.sourceTopic = b.sourceTopic ∧ a.delayMs = b.delayMs ∧ a.target = b.target ∧
      a.judge = b.judge := by
  have hid : a.unmarked.id = b.unmarked.id := congrArg Rule.id h
  have hproject : a.unmarked.project = b.unmarked.project := congrArg Rule.project h
  have htopic : a.unmarked.sourceTopic = b.unmarked.sourceTopic := congrArg Rule.sourceTopic h
  have hdelay : a.unmarked.delayMs = b.unmarked.delayMs := congrArg Rule.delayMs h
  have htarget : a.unmarked.target = b.unmarked.target := congrArg Rule.target h
  have hjudge : a.unmarked.judge = b.unmarked.judge := congrArg Rule.judge h
  exact ⟨hid, hproject, htopic, hdelay, htarget, hjudge⟩

theorem id_of_masked (h : a.masked group = b.masked group) : a.id = b.id :=
  (of_unmarked (unmarked_of_masked h)).1

theorem eq_of_masked (h : a.masked group = b.masked group) (hg : group a.id = true) : a = b := by
  have hgb : group b.id = true := id_of_masked h ▸ hg
  simpa [masked, hg, hgb] using h

theorem masked_of_not_group (hg : ¬ group rule.id = true) : rule.masked group = rule.unmarked :=
  if_neg hg

theorem judge_always (h : rule.triggerCondition = .always) (c : Collaborators) (namespaceName : String)
    (previous : Option String) (payload : String) :
    rule.judge c namespaceName previous payload = rule.judge c namespaceName none payload := by
  simp [judge, h]

theorem topic_of_judge {c : Collaborators} {namespaceName payload : String} {previous : Option String}
    {evaluation : Evaluation} {m : OutboundMessage}
    (h : rule.judge c namespaceName previous payload = .send evaluation m) :
    m.topic = rule.target namespaceName := by
  unfold judge at h
  split at h
  · cases h
  · split at h
    · cases h
    · split at h
      · split at h
        · cases h
        · cases h
        · cases h
          rfl
      · cases h

/-- The verdict on that payload is the same, whatever payloads these names have. -/
def Overlooks (rule : Rule) (engine : Engine) (namespaceName : String) (names : String → Prop)
    (payload : String) : Prop :=
  ∀ look look' : String → Option String, (∀ name, ¬ names name → look name = look' name) →
    rule.judge ⟨look, engine.invoke, engine.calculate⟩ namespaceName none payload =
      rule.judge ⟨look', engine.invoke, engine.calculate⟩ namespaceName none payload

theorem overlooks_of_template {rule : Rule} {template : String} (he : rule.expression = none)
    (ht : rule.targetPayload = some template) {names : String → Prop} {payload : String}
    (h : ∀ look look' : String → Option String, (∀ name, ¬ names name → look name = look' name) →
      Variables.resolve look (replaceInputAnyCase template.toList payload.toList) =
        Variables.resolve look' (replaceInputAnyCase template.toList payload.toList))
    (engine : Engine) (namespaceName : String) : rule.Overlooks engine namespaceName names payload := by
  intro look look' hl
  have htext : Template.resolveText ⟨look, engine.invoke, engine.calculate⟩ template.toList payload =
      Template.resolveText ⟨look', engine.invoke, engine.calculate⟩ template.toList payload := by
    unfold Template.resolveText
    dsimp only
    rw [h look look' hl, Scripts.resolve_lookup look look']
    rfl
  unfold judge Template.resolve
  rw [he, ht]
  dsimp only
  rw [htext]
  rfl

end Rule

namespace Router

open Outbound (Alongside)

variable {watched : String → Prop} {group : String → Bool}

section

variable {o p : Outbound} {rule : Rule} {v : Verdict}

theorem unmarked_turn (o : Outbound) (rule : Rule) (v : Verdict) :
    (turn o rule v).rule.unmarked = rule.unmarked := by
  cases v with
  | send evaluation m =>
    change (sending o (rule.record evaluation) m).rule.unmarked = _
    unfold sending
    rcases o.schedule m (rule.record evaluation).delayMs with e | ⟨u, _ | _ | _⟩ <;> rfl
  | _ => rfl

theorem sending_left (h : Alongside watched o p) {m : OutboundMessage}
    (hw : rule.delayMs ≠ 0 → ¬ watched m.topic) : Alongside watched (sending o rule m).outbound p := by
  unfold sending
  cases hs : o.schedule m rule.delayMs with
  | error e => exact h
  | ok answer =>
    obtain ⟨u, a⟩ := answer
    rcases Outbound.schedule_cases hs with ⟨-, rfl, rfl⟩ | ⟨hd, hm, rfl, rfl⟩ | ⟨hd, -, rfl, rfl⟩
    · exact ⟨h.clock, h.connection, h.left, h.right, h.agenda⟩
    · exact h.arm_left (hw hd) hm _
    · exact h.cancel_left (hw hd)

theorem turn_left (h : Alongside watched o p)
    (hw : rule.delayMs ≠ 0 → ∀ evaluation m, v = .send evaluation m → ¬ watched m.topic) :
    Alongside watched (turn o rule v).outbound p := by
  cases v with
  | send evaluation m => exact sending_left h fun hd => hw hd evaluation m rfl
  | _ => exact h

theorem sending_both (h : Alongside watched o p) {m : OutboundMessage}
    (hw : rule.delayMs ≠ 0 → watched m.topic) :
    let s := sending o rule m
    let t := sending p rule m
    s.rule = t.rule ∧ s.status = t.status ∧ Alongside watched s.outbound t.outbound := by
  by_cases hd : rule.delayMs = 0
  · unfold sending Outbound.schedule
    rw [if_pos hd, if_pos hd]
    have hc := h.connection
    unfold Outbound.publish
    cases hp : p.connection with
    | accepting =>
      rw [hc, hp]
      refine ⟨?_, rfl, h.clock, rfl, h.left, h.right, h.agenda⟩
      change ({ rule with lastTrigger := _ } : Rule) = { rule with lastTrigger := _ }
      rw [h.clock]
    | absent =>
      rw [hc, hp]
      exact ⟨rfl, rfl, h⟩
    | refusing reason =>
      rw [hc, hp]
      exact ⟨rfl, rfl, h⟩
  · have hp := h.pending_iff (hw hd)
    unfold sending
    rw [Outbound.schedule_delayed o m hd, Outbound.schedule_delayed p m hd]
    by_cases hm : o.timers.Pending m.key
    · rw [if_pos hm, if_pos (hp.mp hm)]
      refine ⟨?_, rfl, h.cancel m⟩
      dsimp only
      rw [h.clock]
    · have hn : ¬ p.timers.Pending m.key := mt hp.mpr hm
      rw [if_neg hm, if_neg hn]
      exact ⟨rfl, rfl, h.arm hm hn _⟩

theorem turn_both (h : Alongside watched o p)
    (hw : rule.delayMs ≠ 0 → ∀ evaluation m, v = .send evaluation m → watched m.topic) :
    let s := turn o rule v
    let t := turn p rule v
    s.rule = t.rule ∧ s.status = t.status ∧ Alongside watched s.outbound t.outbound := by
  cases v with
  | send evaluation m => exact sending_both h fun hd => hw hd evaluation m rfl
  | _ => exact ⟨rfl, rfl, h⟩

end

/-- The rules of the group have the same marks, and the watched timers are the same. -/
structure Beside (group : String → Bool) (watched : String → Prop) (r u : Router) : Prop where
  outbound : Alongside watched r.outbound u.outbound
  rules : r.store.rules.map (Rule.masked group) = u.store.rules.map (Rule.masked group)
  outages : r.store.outages = u.store.outages

variable {r u : Router}

theorem beside_after (h : Beside group watched r u) {s t : Turn}
    (ho : Alongside watched s.outbound t.outbound) (hm : s.rule.masked group = t.rule.masked group) :
    Beside group watched (r.after s) (u.after t) := by
  have hid : s.rule.id = t.rule.id := Rule.id_of_masked hm
  have ha := Store.accepts_congr h.outages hid
  obtain ⟨disk, hd⟩ := r.store.keeping_eq s.rule
  obtain ⟨disk', hd'⟩ := u.store.keeping_eq t.rule
  unfold after
  rw [hd, hd']
  refine ⟨ho, ?_, h.outages⟩
  by_cases hs : r.store.Accepts s.rule
  · simp only [hs, ha.mp hs, if_true]
    rw [Table.map_insert, Table.map_insert, h.rules, hid, hm]
  · simp only [hs, mt ha.mpr hs, if_false]
    exact h.rules

/-- A rule of the group gets the same verdict; only for such a rule may a delayed message be watched. -/
theorem turn_beside (h : Beside group watched r u) {a b : Rule}
    (hab : a.masked group = b.masked group) {v w : Verdict} (hv : group a.id = true → v = w)
    (hs : a.delayMs ≠ 0 → ∀ evaluation m, v = .send evaluation m ∨ w = .send evaluation m →
      (watched m.topic ↔ group a.id = true)) :
    let s := turn r.outbound a v
    let t := turn u.outbound b w
    (group a.id = true → s.status = t.status) ∧ Beside group watched (r.after s) (u.after t) := by
  intro s t
  by_cases hg : group a.id = true
  · obtain rfl := Rule.eq_of_masked hab hg
    obtain rfl := hv hg
    obtain ⟨hrule, hstatus, ho⟩ := turn_both (v := v) h.outbound fun hd evaluation m hm =>
      (hs hd evaluation m (Or.inl hm)).mpr hg
    exact ⟨fun _ => hstatus, beside_after h ho (congrArg (Rule.masked group) hrule)⟩
  · have hu := Rule.unmarked_of_masked hab
    obtain ⟨hid, -, -, hdelay, -⟩ := Rule.of_unmarked hu
    have hleft : Alongside watched s.outbound u.outbound := by
      refine turn_left h.outbound fun hd evaluation m hm hw => ?_
      exact hg ((hs hd evaluation m (Or.inl hm)).mp hw)
    have hboth : Alongside watched t.outbound s.outbound := by
      refine turn_left hleft.symm fun hd evaluation m hm hw => ?_
      exact hg ((hs (hdelay ▸ hd) evaluation m (Or.inr hm)).mp hw)
    have hmasked {o : Outbound} {rule : Rule} {v : Verdict} (hr : ¬ group rule.id = true) :
        (turn o rule v).rule.masked group = rule.unmarked := by
      rw [Rule.masked_of_not_group, unmarked_turn]
      rw [(turn_rule o rule v).1]
      exact hr
    refine ⟨fun hn => absurd hn hg, beside_after h hboth.symm ?_⟩
    rw [hmasked hg, hmasked (hid ▸ hg), hu]

def Agree (group : String → Bool) (a b : RuleOutcome) : Prop :=
  a.ruleId = b.ruleId ∧ (group a.ruleId = true → a.status = b.status)

theorem turns_beside {begin final : Router} {previous previous' : Option String}
    {payload payload' : String} {as bs : List Rule}
    (hab : List.Forall₂ (fun a b : Rule => a.masked group = b.masked group) as bs)
    (hn : begin.namespaceName = final.namespaceName)
    (hv : ∀ a ∈ as, group a.id = true →
      begin.verdict previous payload a = final.verdict previous' payload' a)
    (hs : ∀ a ∈ as, a.delayMs ≠ 0 → (watched (a.target begin.namespaceName) ↔ group a.id = true)) :
    ∀ {r u : Router}, SameSight begin r → SameSight final u → Beside group watched r u →
      let x := (applyRules previous payload as).run r
      let y := (applyRules previous' payload' bs).run u
      List.Forall₂ (Agree group) x.1 y.1 ∧ Beside group watched x.2 y.2 := by
  induction hab with
  | nil => exact fun _ _ h => ⟨.nil, h⟩
  | @cons a b as bs hab _ ih =>
    intro r u hr hu h
    obtain ⟨hva, hv⟩ := List.forall_mem_cons.mp hv
    obtain ⟨hsa, hs⟩ := List.forall_mem_cons.mp hs
    have hsend : a.delayMs ≠ 0 → ∀ evaluation m,
        r.verdict previous payload a = .send evaluation m ∨
          u.verdict previous' payload' b = .send evaluation m →
        (watched m.topic ↔ group a.id = true) := by
      intro hd evaluation m hm
      have ht : m.topic = a.target begin.namespaceName := by
        rcases hm with hm | hm
        · rw [hr.verdict_eq] at hm
          exact Rule.topic_of_judge hm
        · rw [hu.verdict_eq] at hm
          obtain ⟨-, -, -, -, htarget, -⟩ := Rule.of_unmarked (Rule.unmarked_of_masked hab)
          rw [Rule.topic_of_judge hm, hn]
          exact (congrFun htarget _).symm
      rw [ht]
      exact hsa hd
    have hverdict : group a.id = true →
        r.verdict previous payload a = u.verdict previous' payload' b := by
      intro hg
      rw [hr.verdict_eq, hu.verdict_eq, ← Rule.eq_of_masked hab hg]
      exact hva hg
    obtain ⟨hstatus, hbeside⟩ := turn_beside h hab hverdict hsend
    obtain ⟨hrest, hlast⟩ := ih hv hs (hr.after previous payload a) (hu.after previous' payload' b)
      hbeside
    rw [run_applyRules_cons, run_applyRules_cons]
    exact ⟨.cons ⟨Rule.id_of_masked hab, hstatus⟩ hrest, hlast⟩

theorem unmarked_turns (previous : Option String) (payload : String) (rules : List Rule) :
    ∀ r : Router, (∀ rule ∈ rules,
        (r.store.rules.map Rule.unmarked).get? rule.id = some rule.unmarked) →
      ((applyRules previous payload rules).run r).2.store.rules.map Rule.unmarked =
        r.store.rules.map Rule.unmarked := by
  intro r h
  apply preserved_turns
    (P := fun u => u.store.rules.map Rule.unmarked = r.store.rules.map Rule.unmarked) _ rfl
  intro rule hm u hu
  let t := u.turnOf previous payload rule
  have hid : t.rule.id = rule.id := (turn_rule ..).1
  have hunmarked : t.rule.unmarked = rule.unmarked := unmarked_turn ..
  obtain ⟨disk, hd⟩ := u.store.keeping_eq t.rule
  change (u.store.keeping t.rule).rules.map Rule.unmarked = _
  rw [hd]
  dsimp only
  split
  · rw [Table.map_insert, hid, hunmarked, hu]
    apply Table.ext_get?
    intro key
    rw [Table.get?_insert]
    split
    · rename_i hk
      rw [hk, h rule hm]
    · rfl
  · exact hu

theorem rulesFor_masked {s u : Store}
    (h : s.rules.map (Rule.masked group) = u.rules.map (Rule.masked group)) (project topic : String) :
    List.Forall₂ (fun a b : Rule => a.masked group = b.masked group)
      (s.rulesFor project topic true) (u.rulesFor project topic true) := by
  let listens (rule : Rule) : Bool :=
    rule.project = project && rule.sourceTopic = topic && (!true || rule.enabled)
  have hlistens (rule : Rule) : listens (rule.masked group) = listens rule := by
    unfold Rule.masked
    split <;> rfl
  have hprecedes (a b : Rule) :
      Store.precedes a b = Store.precedes (a.masked group) (b.masked group) := by
    unfold Rule.masked
    split <;> split <;> rfl
  have hmap (s : Store) : (s.rulesFor project topic true).map (Rule.masked group) =
      ((s.rules.map (Rule.masked group)).values.filter listens).mergeSort Store.precedes := by
    unfold Store.rulesFor
    rw [List.map_mergeSort (fun a _ b _ => hprecedes a b), Table.values_map, List.filter_map]
    congr 2
    apply List.filter_congr
    intro rule _
    exact (hlistens rule).symm
  have heq := (hmap s).trans ((congrArg (fun t : Table Rule =>
    (t.values.filter listens).mergeSort Store.precedes) h).trans (hmap u).symm)
  rw [← List.forall₂_eq_eq_eq, List.forall₂_map_left_iff, List.forall₂_map_right_iff] at heq
  exact heq

/-- The router with room for that many topics in its memory, and none of them there yet. -/
def withRoom (r : Router) (capacity : Nat) : Router := { r with cache := .new capacity }

/-- A topic that is known in that project, and nothing is registered there. -/
structure AtKnown (s : Store) (project : String) (path : TopicPath) : Prop where
  unregistering : Unregistering path
  project_eq : path.project = project
  known : ∃ k ∈ s.knownTopics.values, k.project = project ∧ k.topic = path.topic

/-- Rules that always fire and, as long as such payloads are sent, look up settled names only. Where they
send their delayed messages, no rule outside the group sends one. -/
structure Secluded (start : Router) (group : String → Bool) (said : String → Prop) : Prop where
  always : ∀ rule ∈ start.store.rules.values, group rule.id = true → rule.triggerCondition = .always
  settled : ∀ rule ∈ start.store.rules.values, group rule.id = true → ∀ payload, said payload →
    rule.Overlooks start.engine start.namespaceName
      (Unsettled start.store.knownTopics.values start.namespaceName rule.project rule.sourceTopic) payload
  apart : ∀ a ∈ start.store.rules.values, ∀ b ∈ start.store.rules.values,
    a.delayMs ≠ 0 → b.delayMs ≠ 0 →
      a.target start.namespaceName = b.target start.namespaceName → group a.id = group b.id

def Watched (start : Router) (group : String → Bool) (topic : String) : Prop :=
  ∃ rule ∈ start.store.rules.values, group rule.id = true ∧ rule.delayMs ≠ 0 ∧
    rule.target start.namespaceName = topic

theorem watched_iff {start : Router} {said : String → Prop} (h : Secluded start group said)
    {rule : Rule} (hr : rule ∈ start.store.rules.values) (hd : rule.delayMs ≠ 0) :
    Watched start group (rule.target start.namespaceName) ↔ group rule.id = true := by
  constructor
  · rintro ⟨other, ho, hg, hdo, ht⟩
    rw [h.apart rule hr other ho hd hdo ht.symm]
    exact hg
  · intro hg
    exact ⟨rule, hr, hg, hd, rfl⟩

/-- Two runs over the same messages, whose memories have room for different numbers of topics. -/
structure Twin (start : Router) (project : String) (group : String → Bool) (c d : Nat)
    (j k : Journal) : Prop where
  left : Tracks start (AtKnown start.store project) j
  right : Tracks start (AtKnown start.store project) k
  memory : Remembers c j
  memory' : Remembers d k
  routed : j.routed = k.routed
  beside : Beside group (Watched start group) j.router k.router
  rules : j.router.store.rules.map Rule.unmarked = start.store.rules.map Rule.unmarked

variable {start : Router} {project : String} {said : String → Prop} {c d : Nat} {j k : Journal}

theorem owns_of_atKnown (ht : Trackable start.store) {path : TopicPath}
    (hp : AtKnown start.store project path) : Owns start.store path := by
  obtain ⟨known, hm, hkp, hkt⟩ := hp.known
  obtain ⟨key, hk⟩ := Table.mem_values.mp hm
  have hkey : key = Store.topicKey path.project path.topic := by
    rw [hp.project_eq, ← hkp, ← hkt]
    exact (ht.keyed _ hk).1
  intro found hf
  have heq : found = known := by
    unfold Store.knownTopic? at hf
    rw [← hkey, Table.get?_eq_some.mpr hk] at hf
    exact (Option.some.inj hf).symm
  rw [heq, hp.project_eq]
  exact ⟨hkp, hkt⟩

theorem Tracks.onKnown (h : Tracks start (AtKnown start.store project) j) :
    ∀ x ∈ j.routed, OnKnown start.store.knownTopics.values start.namespaceName project x := by
  intro x hx
  obtain ⟨path, hp, hxp, hxt⟩ := h.allowed x hx
  refine ⟨(h.addressed x hx).2, hxp.trans hp.project_eq, ?_⟩
  rw [hxt]
  exact hp.known

theorem entry_congr {r u : Router} (hf : .findKnownTopic ∉ r.store.outages)
    (ho : r.store.outages = u.store.outages) (hk : r.store.knownTopics = u.store.knownTopics)
    (e : Entry) : (r.arrival e).entry = (u.arrival e).entry := by
  have hr : (r.arrival e).entry = ((track e).run r).1 := rfl
  have hu : (u.arrival e).entry = ((track e).run u).1 := rfl
  rw [hr, hu, run_track hf, run_track (ho ▸ hf)]
  unfold Store.knownTopic?
  rw [hk]
  cases u.store.knownTopics.get? (Store.topicKey e.project e.topic) <;> rfl

theorem beside_arrival {r u : Router} (h : Beside group watched r u) (e e' : Entry) :
    Beside group watched (r.arrival e).router (u.arrival e').router := by
  obtain ⟨ht, hc, hk⟩ := of_outlook (inherited_outlook.prepare e r)
  obtain ⟨ht', hc', hk'⟩ := of_outlook (inherited_outlook.prepare e' u)
  obtain ⟨hr, ho⟩ := Prod.mk.inj (inherited_registry.prepare e r)
  obtain ⟨hr', ho'⟩ := Prod.mk.inj (inherited_registry.prepare e' u)
  refine ⟨⟨?_, ?_, ?_, ?_, ?_⟩, ?_, ?_⟩
  · exact hk.trans (h.outbound.clock.trans hk'.symm)
  · exact hc.trans (h.outbound.connection.trans hc'.symm)
  · exact ht ▸ h.outbound.left
  · exact ht' ▸ h.outbound.right
  · intro m due hm
    have hagenda := h.outbound.agenda m due hm
    rw [← ht, ← ht'] at hagenda
    exact hagenda
  · exact (congrArg _ hr).trans (h.rules.trans (congrArg _ hr').symm)
  · exact ho.trans (h.outages.trans ho'.symm)

/-- Settled names are looked up in the known topics, whatever the memory holds. -/
theorem lookup_arrival (h : Tracks start (AtKnown start.store project) j) (hm : Remembers c j)
    (ht : Trackable start.store) (hu : Unambiguous start.store.knownTopics.values) {m : InboundMessage}
    {path : TopicPath} (hd : destination m start.namespaceName = .routed path)
    (hp : AtKnown start.store project path) :
    let a := j.router.arrival (Entry.ofMessage path m j.router.now)
    a.router.store.knownTopics = start.store.knownTopics.map (tracked (j.routed ++ [a.entry])) ∧
      a.router.store.outages = start.store.outages ∧
      ∀ name, ¬ Unsettled start.store.knownTopics.values start.namespaceName project a.entry.topic name →
        a.router.collaborators.lookup name = a.router.store.lastPayload? name := by
  intro a
  rw [← h.namespaceName] at hd
  have hk := h.arrival ht hd hp.unregistering (owns_of_atKnown ht hp)
  have ho : a.router.store.outages = start.store.outages :=
    (congrArg Prod.snd (inherited_registry.prepare _ j.router)).trans h.outages
  refine ⟨hk, ho, ?_⟩
  intro name hname
  have hc : a.router.cache = (RecentCache.new c).putAll j.routed := (cache_arrival ..).trans hm.cache
  change lastPayload? a.router.cache a.router.store name = _
  rw [hc]
  exact lastPayload?_settled hu h.onKnown (ho ▸ ht.findable) hk hname c

structure Abreast (start : Router) (project : String) (group : String → Bool)
    (a b : Arrival) : Prop where
  entry : a.entry = b.entry
  lookup : ∀ name,
    ¬ Unsettled start.store.knownTopics.values start.namespaceName project a.entry.topic name →
      a.router.collaborators.lookup name = b.router.collaborators.lookup name
  beside : Beside group (Watched start group) a.router b.router

theorem Twin.abreast (h : Twin start project group c d j k) (ht : Trackable start.store)
    (hu : Unambiguous start.store.knownTopics.values) {m : InboundMessage} {path : TopicPath}
    (hd : destination m start.namespaceName = .routed path) (hp : AtKnown start.store project path) :
    Abreast start project group (j.router.arrival (Entry.ofMessage path m j.router.now))
      (k.router.arrival (Entry.ofMessage path m k.router.now)) := by
  have hnow : j.router.now = k.router.now := by
    unfold now
    rw [h.beside.outbound.clock]
  have hknown : j.router.store.knownTopics = k.router.store.knownTopics := by
    rw [h.left.knownTopics, h.right.knownTopics, h.routed]
  have hf : .findKnownTopic ∉ j.router.store.outages := h.left.outages ▸ ht.findable
  obtain ⟨hka, hoa, hla⟩ := lookup_arrival h.left h.memory ht hu hd hp
  obtain ⟨hkb, hob, hlb⟩ := lookup_arrival h.right h.memory' ht hu hd hp
  have hentry : (j.router.arrival (Entry.ofMessage path m j.router.now)).entry =
      (k.router.arrival (Entry.ofMessage path m k.router.now)).entry := by
    rw [hnow]
    exact entry_congr hf h.beside.outages hknown _
  refine ⟨hentry, ?_, beside_arrival h.beside _ _⟩
  intro name hname
  rw [hla name hname, hlb name (hentry ▸ hname)]
  unfold Store.lastPayload? Store.findKnownTopic?
  rw [hka, hkb, hoa, hob, hentry, h.routed]

theorem exists_first {rules : Table Rule}
    (h : rules.map Rule.unmarked = start.store.rules.map Rule.unmarked) {rule : Rule}
    (hr : rule ∈ rules.values) :
    ∃ first ∈ start.store.rules.values, first.unmarked = rule.unmarked := by
  have hm : rule.unmarked ∈ (rules.map Rule.unmarked).values := by
    rw [Table.values_map]
    exact List.mem_map_of_mem hr
  rw [h, Table.values_map] at hm
  obtain ⟨first, hf, he⟩ := List.mem_map.mp hm
  exact ⟨first, hf, he⟩

theorem Abreast.verdict_eq {a b : Arrival} (h : Abreast start project group a b)
    (hg : Secluded start group said) (hfa : a.router.fixture = start.fixture)
    (hfb : b.router.fixture = start.fixture) (hproject : a.entry.project = project)
    (hq : said a.entry.payload) {first rule : Rule}
    (hf : first ∈ start.store.rules.values) (hu : first.unmarked = rule.unmarked)
    (hgroup : group rule.id = true) (hp : rule.project = a.entry.project)
    (ht : rule.sourceTopic = a.entry.topic) :
    a.router.verdict a.previous a.entry.payload rule =
      b.router.verdict b.previous b.entry.payload rule := by
  obtain ⟨hna, hea⟩ := Prod.mk.inj hfa
  obtain ⟨hnb, heb⟩ := Prod.mk.inj hfb
  obtain ⟨hid, hfp, hft, -, -, hjudge⟩ := Rule.of_unmarked hu
  have halways := hg.always first hf (hid ▸ hgroup)
  have hsettled := hg.settled first hf (hid ▸ hgroup) _ hq
  rw [hfp, hft, hp, ht, hproject] at hsettled
  unfold verdict
  rw [← hjudge, Rule.judge_always halways, Rule.judge_always halways _ _ b.previous,
    hna, hnb, ← h.entry]
  have hca : a.router.collaborators =
      ⟨a.router.collaborators.lookup, start.engine.invoke, start.engine.calculate⟩ := by
    rw [← hea]
    rfl
  have hcb : b.router.collaborators =
      ⟨b.router.collaborators.lookup, start.engine.invoke, start.engine.calculate⟩ := by
    rw [← heb]
    rfl
  rw [hca, hcb]
  exact hsettled _ _ h.lookup

theorem Abreast.turns {a b : Arrival} (h : Abreast start project group a b)
    (hg : Secluded start group said) (hsa : a.router.store.Sound) (hsb : b.router.store.Sound)
    (hfa : a.router.fixture = start.fixture) (hfb : b.router.fixture = start.fixture)
    (hproject : a.entry.project = project) (hq : said a.entry.payload)
    (hrules : a.router.store.rules.map Rule.unmarked = start.store.rules.map Rule.unmarked) :
    List.Forall₂ (Agree group) a.turns.1 b.turns.1 ∧
      Beside group (Watched start group) a.turns.2 b.turns.2 := by
  have hra : a.rules = a.router.store.rulesFor a.entry.project a.entry.topic true := heard_eq hsa _
  have hrb : b.rules = b.router.store.rulesFor b.entry.project b.entry.topic true := heard_eq hsb _
  have hna : a.router.namespaceName = start.namespaceName := congrArg Prod.fst hfa
  have hnb : b.router.namespaceName = start.namespaceName := congrArg Prod.fst hfb
  refine turns_beside ?_ (hna.trans hnb.symm) ?_ ?_ (SameSight.refl a.router)
    (SameSight.refl b.router) h.beside
  · rw [hra, hrb, ← h.entry]
    exact rulesFor_masked h.beside.rules _ _
  · intro rule hr hgroup
    rw [hra] at hr
    obtain ⟨hm, hp, ht, -⟩ := Store.mem_rulesFor.mp hr
    obtain ⟨first, hf, hu⟩ := exists_first hrules hm
    exact h.verdict_eq hg hfa hfb hproject hq hf hu hgroup hp ht
  · intro rule hr hd
    rw [hra] at hr
    obtain ⟨first, hf, hu⟩ := exists_first hrules (Store.mem_rulesFor.mp hr).1
    obtain ⟨hid, -, -, hdelay, htarget, -⟩ := Rule.of_unmarked hu
    rw [hna, ← hid, ← htarget]
    exact watched_iff hg hf (hdelay ▸ hd)

theorem unmarked_arrival {a : Arrival} (h : a.router.store.Sound) :
    a.turns.2.store.rules.map Rule.unmarked = a.router.store.rules.map Rule.unmarked := by
  apply unmarked_turns
  intro rule hr
  have hrules : a.rules = a.router.store.rulesFor a.entry.project a.entry.topic true := heard_eq h _
  rw [hrules] at hr
  rw [Table.get?_map, Table.get?_id h.keyed (Store.mem_rulesFor.mp hr).1]
  rfl

theorem quiet_of_atKnown (ht : Trackable start.store) : ∀ path, IsSegment path.project →
    AtKnown start.store project path → Unregistering path ∧ Owns start.store path :=
  fun _ _ hp => ⟨hp.unregistering, owns_of_atKnown ht hp⟩

theorem twin_of_turns (h : Twin start project group c d j k) {a b : Arrival} {j' k' : Journal}
    (hj : j' = ⟨a.aftermath, j.routed ++ [a.entry]⟩) (hk : k' = ⟨b.aftermath, k.routed ++ [b.entry]⟩)
    (hl : Tracks start (AtKnown start.store project) j')
    (hr : Tracks start (AtKnown start.store project) k') (hm : Remembers c j') (hm' : Remembers d k')
    (hentry : a.entry = b.entry) (hb : Beside group (Watched start group) a.turns.2 b.turns.2)
    (hrules : a.turns.2.store.rules.map Rule.unmarked = start.store.rules.map Rule.unmarked) :
    Twin start project group c d j' k' := by
  refine ⟨hl, hr, hm, hm', ?_, ?_, ?_⟩
  · rw [hj, hk]
    dsimp only
    rw [h.routed, hentry]
  · rw [hj, hk]
    exact ⟨hb.outbound, hb.rules, hb.outages⟩
  · rw [hj]
    exact hrules

/-- What rules of the group make of a message, and what they keep of it, is the same in both runs. -/
theorem Twin.arrive (h : Twin start project group c d j k) (ht : Trackable start.store)
    (hu : Unambiguous start.store.knownTopics.values) (hg : Secluded start group said)
    {m : InboundMessage} (hq : said m.payload) {path : TopicPath}
    (hd : destination m start.namespaceName = .routed path) (hp : AtKnown start.store project path) :
    let a := j.router.arrival (Entry.ofMessage path m j.router.now)
    let b := k.router.arrival (Entry.ofMessage path m k.router.now)
    List.Forall₂ (Agree group) a.turns.1 b.turns.1 ∧
      Twin start project group c d (j.next (.arrive m)) (k.next (.arrive m)) := by
  intro a b
  have hab : Abreast start project group a b := h.abreast ht hu hd hp
  have hconfined : Confined start.namespaceName (AtKnown start.store project) (.arrive m) :=
    ⟨path, hd, hp⟩
  have hsa : a.router.store.Sound := sound_arrival h.memory.sound _
  have hsb : b.router.store.Sound := sound_arrival h.memory'.sound _
  have hfa : a.router.fixture = start.fixture :=
    (inherited_fixture.prepare _ j.router).trans h.left.fixture
  have hfb : b.router.fixture = start.fixture :=
    (inherited_fixture.prepare _ k.router).trans h.right.fixture
  have hrules : a.router.store.rules = j.router.store.rules :=
    congrArg Prod.fst (inherited_registry.prepare _ j.router)
  have hmarks : a.router.store.rules.map Rule.unmarked = start.store.rules.map Rule.unmarked := by
    rw [hrules]
    exact h.rules
  have hproject : a.entry.project = project := (entry_arrival ..).1.trans hp.project_eq
  have hpayload : said a.entry.payload := by
    rw [payload_arrival]
    exact hq
  obtain ⟨houtcomes, hbeside⟩ := hab.turns hg hsa hsb hfa hfb hproject hpayload hmarks
  have hj : j.next (.arrive m) = ⟨a.aftermath, j.routed ++ [a.entry]⟩ :=
    next_arrive (h.left.namespaceName ▸ hd)
  have hk : k.next (.arrive m) = ⟨b.aftermath, k.routed ++ [b.entry]⟩ :=
    next_arrive (h.right.namespaceName ▸ hd)
  exact ⟨houtcomes, twin_of_turns h hj hk (h.left.step ht (quiet_of_atKnown ht) hconfined)
    (h.right.step ht (quiet_of_atKnown ht) hconfined) (step_remembers h.memory _)
    (step_remembers h.memory' _) hab.entry hbeside ((unmarked_arrival hsa).trans hmarks)⟩

theorem Twin.unrouted (h : Twin start project group c d j k) (ht : Trackable start.store)
    {event : Event} (he : Confined start.namespaceName (AtKnown start.store project) event)
    (hnj : routedBy j.router event = none) (hnk : routedBy k.router event = none)
    (hj : (j.router.next event).store = j.router.store)
    (hk : (k.router.next event).store = k.router.store)
    (ho : Alongside (Watched start group) (j.router.next event).outbound
      (k.router.next event).outbound) :
    Twin start project group c d (j.next event) (k.next event) := by
  refine ⟨h.left.step ht (quiet_of_atKnown ht) he, h.right.step ht (quiet_of_atKnown ht) he,
    step_remembers h.memory _, step_remembers h.memory' _, ?_, ?_, ?_⟩
  · rw [next_unrouted hnj, next_unrouted hnk]
    exact h.routed
  · rw [next_unrouted hnj, next_unrouted hnk]
    refine ⟨ho, ?_, ?_⟩
    · rw [hj, hk]
      exact h.beside.rules
    · rw [hj, hk]
      exact h.beside.outages
  · rw [next_unrouted hnj, hj]
    exact h.rules

theorem step_twin (h : Twin start project group c d j k) (ht : Trackable start.store)
    (hu : Unambiguous start.store.knownTopics.values) (hg : Secluded start group said) {event : Event}
    (he : Confined start.namespaceName (AtKnown start.store project) event)
    (hq : ∀ m, event = .arrive m → said m.payload) :
    Twin start project group c d (j.next event) (k.next event) := by
  cases event with
  | arrive m =>
    obtain ⟨path, hd, hp⟩ := he
    exact (h.arrive ht hu hg (hq m rfl) hd hp).2
  | elapse ms => exact h.unrouted ht he rfl rfl rfl rfl (h.beside.outbound.advance ms)
  | cancelAll => exact h.unrouted ht he rfl rfl rfl rfl h.beside.outbound.cancelAll
  | connect connection => exact h.unrouted ht he rfl rfl rfl rfl (h.beside.outbound.connect connection)
  | _ => exact he.elim

theorem start_twin (hs : start.store.Sound) (ho : start.outbound.timers.OnePerPair) (project : String)
    (group : String → Bool) (c d : Nat) :
    Twin start project group c d ⟨start.withRoom c, []⟩ ⟨start.withRoom d, []⟩ where
  left := tracks_start _
  right := tracks_start _
  memory := ⟨rfl, hs, List.forall_mem_nil _⟩
  memory' := ⟨rfl, hs, List.forall_mem_nil _⟩
  routed := rfl
  beside := ⟨.refl ho, rfl, rfl⟩
  rules := rfl

theorem run_twin (hs : start.store.Sound) (ho : start.outbound.timers.OnePerPair)
    (ht : Trackable start.store) (hu : Unambiguous start.store.knownTopics.values)
    (hg : Secluded start group said) {events : List Event}
    (he : ∀ event ∈ events, Confined start.namespaceName (AtKnown start.store project) event)
    (hq : ∀ m, .arrive m ∈ events → said m.payload) (c d : Nat) :
    Twin start project group c d (events.foldl Journal.next ⟨start.withRoom c, []⟩)
      (events.foldl Journal.next ⟨start.withRoom d, []⟩) := by
  induction events using List.reverseRecOn with
  | nil => exact start_twin hs ho project group c d
  | append_singleton events event ih =>
    rw [List.foldl_concat, List.foldl_concat]
    have h := ih (fun e hm => he e (List.mem_append_left _ hm))
      fun m hm => hq m (List.mem_append_left _ hm)
    have hlast : event ∈ events ++ [event] := List.mem_append_right _ (List.mem_singleton_self event)
    exact step_twin h ht hu hg (he event hlast) fun m hm => hq m (hm ▸ hlast)

theorem Twin.onRecord (h : Twin start project group c d j k) {id : String} (hg : group id = true) :
    j.router.store.rules.get? id = k.router.store.rules.get? id := by
  have heq := congrArg (fun t : Table Rule => t.get? id) h.beside.rules
  simp only [Table.get?_map] at heq
  have hkeyed {t : Table Rule} (ht : t.Keyed) : (t.get? id).map (Rule.masked group) = t.get? id := by
    cases hr : t.get? id with
    | none => rfl
    | some rule =>
      have hid : id = rule.id := ht _ (Table.get?_eq_some.mp hr)
      simp [Rule.masked, ← hid, hg]
  rw [hkeyed h.memory.sound.keyed, hkeyed h.memory'.sound.keyed] at heq
  exact heq

/-- Whatever room the memories have: settled names are looked up with the same payloads when a message
has arrived, and the rules of the group have the same outcomes and are the same when they are saved,
with their last evaluation and the time of their last message. -/
theorem eviction_unnoticed (hs : start.store.Sound) (ho : start.outbound.timers.OnePerPair)
    (ht : Trackable start.store) (hu : Unambiguous start.store.knownTopics.values)
    (hg : Secluded start group said) {events : List Event}
    (he : ∀ event ∈ events, Confined start.namespaceName (AtKnown start.store project) event)
    (hq : ∀ m, .arrive m ∈ events → said m.payload) {m : InboundMessage} (hm : said m.payload)
    {path : TopicPath} (hd : destination m start.namespaceName = .routed path)
    (hp : AtKnown start.store project path) (c d : Nat) :
    let j := events.foldl Journal.next ⟨start.withRoom c, []⟩
    let k := events.foldl Journal.next ⟨start.withRoom d, []⟩
    let a := j.router.arrival (Entry.ofMessage path m j.router.now)
    let b := k.router.arrival (Entry.ofMessage path m k.router.now)
    (∀ name, ¬ Unsettled start.store.knownTopics.values start.namespaceName project path.topic name →
      a.router.collaborators.lookup name = b.router.collaborators.lookup name) ∧
    (∃ e outcomes outcomes', ((handle m).run j.router).1 = .routed e outcomes ∧
      ((handle m).run k.router).1 = .routed e outcomes' ∧
      List.Forall₂ (Agree group) outcomes outcomes') ∧
    ∀ id, group id = true → (j.next (.arrive m)).router.store.rules.get? id =
      (k.next (.arrive m)).router.store.rules.get? id := by
  intro j k a b
  have h : Twin start project group c d j k := run_twin hs ho ht hu hg he hq c d
  have hab : Abreast start project group a b := h.abreast ht hu hd hp
  obtain ⟨houtcomes, hnext⟩ := h.arrive ht hu hg hm hd hp
  refine ⟨?_, ⟨a.entry, a.turns.1, b.turns.1, ?_, ?_, houtcomes⟩, fun id hid => hnext.onRecord hid⟩
  · intro name hname
    apply hab.lookup
    have htopic : a.entry.topic = path.topic := (entry_arrival ..).2
    rw [htopic]
    exact hname
  · rw [(run_routed (h.left.namespaceName ▸ hd)).1]
  · rw [(run_routed (h.right.namespaceName ▸ hd)).1, hab.entry]

def hallTopic (topic : String) : KnownTopic := { KnownTopic.bare "p" topic with namespaceName := "h" }

def hallMessage (topic payload : String) : InboundMessage := ⟨"h/p/" ++ topic, payload, 0, false⟩

def hall (known : List KnownTopic) (rules : List Rule) : Router :=
  let store := known.foldl Store.insertKnownTopic (.inMemory .empty)
  { unruled with store := rules.foldl Store.insertRule store }

def ringing (id topic : String) (delayMs : Nat) (payload : String) : Rule :=
  { bell id 1 delayMs with sourceTopic := topic, targetTopic := "bell", targetPayload := some payload }

theorem resolve_lampMarker (look : String → Option String) :
    Variables.resolve look "Read('lamp')".toList =
      (look "lamp").elim "Read('lamp')".toList String.toList := by
  have hb : Variables.usesBareNames "Read('lamp')".toList = false := by cbv
  have hn : (Marker.readMarkers "Read('lamp')".toList).length = 1 := by decide
  have hf : Marker.findReadFrom "Read('lamp')".toList 0 =
      some ⟨[], "Read('lamp')".toList, ⟨"lamp", none⟩, []⟩ := by decide
  unfold Variables.resolve Variables.resolveReadMarkers
  rw [hb, hn, if_neg Bool.false_ne_true]
  unfold Variables.replaceFrom
  rw [hf]
  simp only [pure_bind]
  cases look "lamp" with
  | none => rfl
  | some payload => simp [Variables.replaceFrom, Variables.valueOf]

theorem destination_hallMessage {topic : String} (payload : String)
    (hl : isLost ("h/p/" ++ topic) = false)
    (hp : TopicPath.parse ("h/p/" ++ topic) = .ok ⟨"h", "p", topic⟩) :
    destination (hallMessage topic payload) "h" = .routed ⟨"h", "p", topic⟩ := by
  unfold destination hallMessage
  rw [hl, hp]
  rfl

/-- The bell is to ring with the payload of the lamp, which one of the memories has lost. -/
theorem evicted_lamp_read :
    let start := hall [hallTopic "door", hallTopic "lamp"] [ringing "a" "door" 10 "Read('lamp')",
      { ringing "b" "lamp" 0 "Read('lamp')" with triggerCondition := .fireOnSourcePayloadChanged }]
    let events := [Event.arrive (hallMessage "lamp" "7"), .arrive (hallMessage "door" "1")]
    let j := events.foldl Journal.next ⟨start.withRoom 1, []⟩
    let k := events.foldl Journal.next ⟨start.withRoom 2, []⟩
    Secluded start (· = "a") (fun _ => True) ∧
      (∀ event ∈ events, Confined "h" (AtKnown start.store "p") event) ∧
      j.router.cache.topics = ["door"] ∧ k.router.cache.topics = ["lamp", "door"] ∧
      ∃ e outcomes outcomes', ((handle (hallMessage "door" "2")).run j.router).1 = .routed e outcomes ∧
        ((handle (hallMessage "door" "2")).run k.router).1 = .routed e outcomes' ∧
        outcomes = [⟨"a", .cancelled (.plain "h/p/bell" "7")⟩] ∧
        List.Forall₂ (Agree (· = "a")) outcomes outcomes' := by
  intro start events j k
  have hlamp (payload : String) : (ringing "a" "door" 10 "Read('lamp')").Overlooks start.engine "h"
      (Unsettled start.store.knownTopics.values "h" "p" "door") payload := by
    apply Rule.overlooks_of_template rfl rfl
    intro look look' hl
    have hinput : replaceInputAnyCase "Read('lamp')".toList payload.toList = "Read('lamp')".toList := rfl
    rw [hinput, resolve_lampMarker, resolve_lampMarker, hl "lamp" ?_]
    unfold Unsettled
    decide
  have hg : Secluded start (· = "a") (fun _ => True) := by
    refine ⟨by decide, ?_, by decide⟩
    intro rule hr hid payload _
    rcases List.mem_pair.mp hr with rfl | rfl
    · exact hlamp payload
    · cases hid
  have hdoor (payload : String) := @destination_hallMessage "door" payload (by decide +kernel)
    (by decide +kernel)
  have hlight := @destination_hallMessage "lamp" "7" (by decide +kernel) (by decide +kernel)
  have hpd : AtKnown start.store "p" ⟨"h", "p", "door"⟩ := ⟨⟨by decide, by decide⟩, rfl, by decide⟩
  have hpl : AtKnown start.store "p" ⟨"h", "p", "lamp"⟩ := ⟨⟨by decide, by decide⟩, rfl, by decide⟩
  have he : ∀ event ∈ events, Confined "h" (AtKnown start.store "p") event := by
    simp only [events, List.forall_mem_cons, List.not_mem_nil, false_imp_iff, implies_true, and_true]
    exact ⟨⟨_, hlight, hpl⟩, _, hdoor _, hpd⟩
  have hs : start.store.Sound := ⟨by unfold Table.Keyed; decide, by decide⟩
  have ht : Trackable start.store := ⟨by decide, by decide, by unfold Table.KeyedBy; decide⟩
  obtain ⟨-, ⟨e, outcomes, outcomes', hj, hk, ho⟩, -⟩ :=
    eviction_unnoticed hs .nil ht (by decide) hg he (fun _ _ => trivial) trivial (hdoor "2") hpd 1 2
  refine ⟨hg, he, by decide +kernel, by decide +kernel, e, outcomes, outcomes', hj, hk, ?_, ho⟩
  have hrun : ((handle (hallMessage "door" "2")).run j.router).1 = .routed
      (described (Entry.ofMessage ⟨"h", "p", "door"⟩ (hallMessage "door" "2") j.router.now)
        (hallTopic "door")) [⟨"a", .cancelled (.plain "h/p/bell" "7")⟩] := by
    decide +kernel
  rw [hj] at hrun
  exact (MessageOutcome.routed.inj hrun).2

def statuses (start : Router) (earlier : List InboundMessage) (m : InboundMessage) (capacity : Nat) :
    List RuleStatus :=
  let j := (earlier.map Event.arrive).foldl Journal.next ⟨start.withRoom capacity, []⟩
  match ((handle m).run j.router).1 with
  | .routed _ outcomes => outcomes.map RuleOutcome.status
  | _ => []

/-- A rule that always fires tells a memory of one topic from a memory of two by its own topic, by a
timer that a rule of another kind takes away, and by the address of a topic that is known without its
namespace. -/
theorem eviction_noticed :
    let known := [hallTopic "door", hallTopic "lamp"]
    let own := statuses (hall known [ringing "a" "door" 0 "Read('door')"])
      [hallMessage "door" "1", hallMessage "lamp" "7"] (hallMessage "door" "2")
    let timed := statuses (hall known [ringing "a" "lamp" 10 "1",
        { ringing "b" "door" 10 "1" with triggerCondition := .fireOnSourcePayloadChanged }])
      [hallMessage "door" "1", hallMessage "lamp" "7", hallMessage "door" "1"] (hallMessage "lamp" "8")
    let nameless := statuses
      (hall [hallTopic "door", .bare "p" "lamp"] [ringing "a" "door" 0 "Read('h/p/lamp')"])
      [hallMessage "lamp" "7", hallMessage "door" "1"] (hallMessage "door" "2")
    (own 2 = [.published (.plain "h/p/bell" "1")] ∧ own 1 = [.published (.plain "h/p/bell" "2")]) ∧
    (timed 2 = [.armed (.plain "h/p/bell" "1")] ∧ timed 1 = [.cancelled (.plain "h/p/bell" "1")]) ∧
    (nameless 2 = [.published (.plain "h/p/bell" "7")] ∧ nameless 1 ≠ nameless 2) := by
  decide +kernel

end Router

end TopicHub
