import Mathlib
import TopicHub.Proofs.Router.Turn
import TopicHub.Proofs.Rules

/-!
Rules do not disturb each other. What a rule reads when it is its turn is the memory, the known
topics and the engine, and no turn touches them. A message is handled once with all rules and once
with a single one: the verdict on that rule, the evaluation that is kept and what is reported are
the same. The timers differ, so a message may be armed in one run and take a timer of its topic
and payload away in the other.
-/

namespace TopicHub

def Rule.evaluation (r : Rule) : Bool × Option String := (r.evaluationResult, r.evaluationProtocol)

/-- The same, unless the same message was armed in one and cancelled in the other. -/
def RuleStatus.Alike (a b : RuleStatus) : Prop :=
  a = b ∨ ∃ m, (a = .armed m ∨ a = .cancelled m) ∧ (b = .armed m ∨ b = .cancelled m)

theorem RuleStatus.Alike.message? {a b : RuleStatus} (h : a.Alike b) : a.message? = b.message? := by
  rcases h with rfl | ⟨m, rfl | rfl, rfl | rfl⟩ <;> rfl

namespace Router

theorem sending_rule (o : Outbound) (rule : Rule) (m : OutboundMessage) :
    (sending o rule m).rule.id = rule.id ∧
      (sending o rule m).rule.evaluation = rule.evaluation := by
  unfold sending
  cases o.schedule m rule.delayMs with
  | error e => exact ⟨rfl, rfl⟩
  | ok u =>
    obtain ⟨u, a⟩ := u
    cases a with
    | published => exact ⟨rfl, rfl⟩
    | armed => exact ⟨rfl, rfl⟩
    | cancelled => exact ⟨rfl, rfl⟩

theorem turn_rule (o : Outbound) (rule : Rule) (v : Verdict) :
    (turn o rule v).rule.id = rule.id ∧
      (turn o rule v).rule.evaluation = (rule.record (v.recorded rule)).evaluation := by
  cases v with
  | send evaluation m => exact sending_rule o (rule.record evaluation) m
  | _ => exact ⟨rfl, rfl⟩

theorem sending_alike {o u : Outbound} (h : o.connection = u.connection) (rule : Rule)
    (m : OutboundMessage) : (sending o rule m).status.Alike (sending u rule m).status := by
  unfold sending Outbound.schedule
  by_cases hd : rule.delayMs = 0
  · left
    rw [if_pos hd, if_pos hd]
    unfold Outbound.publish
    rw [h]
    cases u.connection <;> rfl
  · right
    refine ⟨m, ?_, ?_⟩
    · rw [if_neg hd]
      cases o.timers.pendingFor? m with
      | none => exact Or.inl rfl
      | some p => exact Or.inr rfl
    · rw [if_neg hd]
      cases u.timers.pendingFor? m with
      | none => exact Or.inl rfl
      | some p => exact Or.inr rfl

theorem turn_alike {o u : Outbound} (h : o.connection = u.connection) (rule : Rule) (v : Verdict) :
    (turn o rule v).status.Alike (turn u rule v).status := by
  cases v with
  | send evaluation m => exact sending_alike h _ m
  | _ => exact Or.inl rfl

/-- All that a turn depends on, apart from the timers, is the same. -/
structure SameSight (r u : Router) : Prop where
  collaborators : u.collaborators = r.collaborators
  namespaceName : u.namespaceName = r.namespaceName
  connection : u.outbound.connection = r.outbound.connection
  outages : u.store.outages = r.store.outages

theorem SameSight.refl (r : Router) : SameSight r r := ⟨rfl, rfl, rfl, rfl⟩

theorem SameSight.verdict_eq {r u : Router} (h : SameSight r u) (previous : Option String)
    (payload : String) (rule : Rule) :
    u.verdict previous payload rule = r.verdict previous payload rule := by
  unfold verdict
  rw [h.collaborators, h.namespaceName]

/-- A turn does not touch what the next one reads. -/
theorem SameSight.after {r u : Router} (h : SameSight r u) (previous : Option String)
    (payload : String) (rule : Rule) : SameSight r (u.after (u.turnOf previous payload rule)) := by
  obtain ⟨disk, hd⟩ := u.store.keeping_eq (u.turnOf previous payload rule).rule
  have hc : (u.after (u.turnOf previous payload rule)).outbound.connection =
      u.outbound.connection := turn_connection ..
  refine ⟨?_, h.namespaceName, hc.trans h.connection, ?_⟩
  · rw [← h.collaborators]
    unfold Router.after
    rw [hd]
    rfl
  · rw [← h.outages]
    unfold Router.after
    rw [hd]

def verdicts (previous : Option String) (payload : String) : List Rule → Router → List Verdict
  | [], _ => []
  | rule :: rules, r =>
    r.verdict previous payload rule ::
      verdicts previous payload rules ((applyRule previous payload rule).run r).2

theorem verdicts_eq {r : Router} (previous : Option String) (payload : String) (rules : List Rule) :
    ∀ {u : Router}, SameSight r u →
      verdicts previous payload rules u = rules.map (r.verdict previous payload) := by
  induction rules with
  | nil => exact fun _ => rfl
  | cons rule rules ih =>
    intro u h
    unfold verdicts
    rw [h.verdict_eq, run_applyRule, ih (h.after previous payload rule)]
    rfl

theorem outcomes_alike {r : Router} (previous : Option String) (payload : String)
    (rules : List Rule) : ∀ {u : Router}, SameSight r u →
      List.Forall₂ (fun rule outcome => outcome.ruleId = rule.id ∧
          outcome.status.Alike (r.turnOf previous payload rule).status)
        rules ((applyRules previous payload rules).run u).1 := by
  induction rules with
  | nil => exact fun _ => List.Forall₂.nil
  | cons rule rules ih =>
    intro u h
    rw [run_applyRules_cons]
    refine List.Forall₂.cons ⟨rfl, ?_⟩ (ih (h.after previous payload rule))
    unfold turnOf
    rw [h.verdict_eq]
    exact turn_alike h.connection rule _

def onRecord (r : Router) (id : String) : Option (Bool × Option String) :=
  (r.store.rules.get? id).map Rule.evaluation

def filed (r : Router) (previous : Option String) (payload : String) (rule : Rule) :
    Bool × Option String :=
  if r.store.Accepts rule then
    (rule.record ((r.verdict previous payload rule).recorded rule)).evaluation
  else rule.evaluation

theorem SameSight.filed_eq {r u : Router} (h : SameSight r u) (previous : Option String)
    (payload : String) (rule : Rule) :
    u.filed previous payload rule = r.filed previous payload rule := by
  unfold filed
  rw [h.verdict_eq]
  simp only [Store.accepts_congr h.outages rfl]

theorem get?_after (r : Router) (t : Turn) (id : String) : (r.after t).store.rules.get? id =
    if id = t.rule.id ∧ r.store.Accepts t.rule then some t.rule else r.store.rules.get? id := by
  obtain ⟨disk, hd⟩ := r.store.keeping_eq t.rule
  simp only [after, hd]
  by_cases ha : r.store.Accepts t.rule
  · simp only [ha, if_true, and_true, Table.get?_insert]
  · simp only [ha, if_false, and_false]

theorem id_turnOf (r : Router) (previous : Option String) (payload : String) (rule : Rule) :
    (r.turnOf previous payload rule).rule.id = rule.id := (turn_rule ..).1

theorem onRecord_after (r : Router) (previous : Option String) (payload : String) (rule : Rule)
    (id : String) : (r.after (r.turnOf previous payload rule)).onRecord id =
      if id = rule.id ∧ r.store.Accepts rule then some (r.filed previous payload rule)
      else r.onRecord id := by
  obtain ⟨hi, he⟩ := turn_rule r.outbound rule (r.verdict previous payload rule)
  change (r.turnOf previous payload rule).rule.id = _ at hi
  change (r.turnOf previous payload rule).rule.evaluation = _ at he
  rw [onRecord, get?_after, hi]
  simp only [Store.accepts_congr rfl hi]
  by_cases hk : id = rule.id ∧ r.store.Accepts rule
  · rw [if_pos hk, if_pos hk, Option.map_some, he, filed, if_pos hk.2]
  · rw [if_neg hk, if_neg hk, onRecord]

theorem get?_of_others (previous : Option String) (payload : String) {rules : List Rule}
    {id : String} (hid : id ∉ rules.map Rule.id) (r : Router) :
    ((applyRules previous payload rules).run r).2.store.rules.get? id = r.store.rules.get? id := by
  apply preserved_turns (P := fun u => u.store.rules.get? id = r.store.rules.get? id) _ rfl
  intro rule hr u hu
  have hne : id ≠ rule.id := fun he => hid (he ▸ List.mem_map_of_mem hr)
  rw [get?_after, id_turnOf, if_neg fun h => hne h.1, hu]

theorem record_of_others (previous : Option String) (payload : String) (rules : List Rule)
    {id : String} (hid : id ∉ rules.map Rule.id) (r : Router) :
    ((applyRules previous payload rules).run r).2.onRecord id = r.onRecord id := by
  rw [onRecord, get?_of_others previous payload hid, onRecord]

theorem record_of_rules {r : Router} (previous : Option String) (payload : String)
    {rules : List Rule} (hn : (rules.map Rule.id).Nodup) : ∀ {u : Router}, SameSight r u →
      (∀ rule ∈ rules, u.onRecord rule.id = some rule.evaluation) → ∀ rule ∈ rules,
        ((applyRules previous payload rules).run u).2.onRecord rule.id =
          some (r.filed previous payload rule) := by
  induction rules with
  | nil => exact fun _ _ _ hr => nomatch hr
  | cons first rules ih =>
    intro u h hu rule hr
    obtain ⟨hf, hn⟩ := List.nodup_cons.mp hn
    rw [run_applyRules_cons]
    dsimp only
    rcases List.mem_cons.mp hr with rfl | hr
    · rw [record_of_others _ _ _ hf, onRecord_after]
      by_cases ha : u.store.Accepts rule
      · rw [if_pos ⟨rfl, ha⟩, h.filed_eq]
      · rw [if_neg fun k => ha k.2, hu rule (List.mem_cons_self ..), ← h.filed_eq, filed, if_neg ha]
    · apply ih hn (h.after previous payload first) _ rule hr
      intro other ho
      have hne : other.id ≠ first.id := fun he => hf (he ▸ List.mem_map_of_mem ho)
      rw [onRecord_after, if_neg fun k => hne k.1]
      exact hu other (List.mem_cons_of_mem _ ho)

def Arrival.verdicts (a : Arrival) : List Verdict :=
  Router.verdicts a.previous a.entry.payload a.rules a.router

def verdictsOn (r : Router) (m : InboundMessage) : List Verdict :=
  match destination m r.namespaceName with
  | .routed path => (r.arrival (Entry.ofMessage path m r.now)).verdicts
  | _ => []

def only (r : Router) (rule : Rule) : Router := r.withRules (Table.empty.insert rule.id rule)

/-- A rule fares as if it were the only one. -/
structure Undisturbed (r : Router) (m : InboundMessage) (e : Entry) (rule : Rule) (v : Verdict)
    (outcome : RuleOutcome) : Prop where
  named : outcome.ruleId = rule.id
  judged : (r.only rule).verdictsOn m = [v]
  reported : ∃ status, ((handle m).run (r.only rule)).1 = .routed e [⟨rule.id, status⟩] ∧
    outcome.status.Alike status
  recorded : ∃ evaluation, ((handle m).run r).2.onRecord rule.id = some evaluation ∧
    ((handle m).run (r.only rule)).2.onRecord rule.id = some evaluation

theorem heard_eq {r : Router} (h : r.store.Sound) (e : Entry) :
    r.heard e = r.store.rulesFor e.project e.topic true := if_neg h.loadable

theorem heard_only {r : Router} (h : r.store.Sound) {rule : Rule} {e : Entry}
    (hr : rule ∈ r.heard e) : (r.only rule).heard e = [rule] := by
  rw [heard_eq h] at hr
  obtain ⟨-, hp, ht, he⟩ := Store.mem_rulesFor.mp hr
  have hl : (r.only rule).heard e = (r.only rule).store.rulesFor e.project e.topic true :=
    if_neg h.loadable
  rw [hl]
  have hv : (r.only rule).store.rules.values = [rule] := rfl
  unfold Store.rulesFor
  rw [hv]
  simp [hp, ht, he]

theorem sight_only (r : Router) (rule : Rule) : SameSight r (r.only rule) := ⟨rfl, rfl, rfl, rfl⟩

theorem onRecord_only (r : Router) (rule : Rule) :
    (r.only rule).onRecord rule.id = some rule.evaluation := by
  unfold onRecord only withRules Store.withRules
  rw [Table.get?_insert, if_pos rfl]
  rfl

namespace Arrival

def verdict (a : Arrival) (rule : Rule) : Verdict :=
  a.router.verdict a.previous a.entry.payload rule

def status (a : Arrival) (rule : Rule) : RuleStatus :=
  (a.router.turnOf a.previous a.entry.payload rule).status

def filed (a : Arrival) (rule : Rule) : Bool × Option String :=
  a.router.filed a.previous a.entry.payload rule

def only (a : Arrival) (rule : Rule) : Arrival := { a with router := a.router.only rule }

end Arrival

theorem sound_arrival {r : Router} (h : r.store.Sound) (e : Entry) :
    (r.arrival e).router.store.Sound :=
  Store.sound_of_registry h (inherited_registry.prepare _ r)

theorem turns_only {a : Arrival} (h : a.router.store.Sound) {rule : Rule} (hr : rule ∈ a.rules) :
    (a.only rule).turns.1 = [⟨rule.id, a.status rule⟩] ∧
      (a.only rule).aftermath.onRecord rule.id = some (a.filed rule) ∧
      (a.only rule).verdicts = [a.verdict rule] := by
  have hrules : (a.only rule).rules = [rule] := heard_only h hr
  have hsight : SameSight a.router (a.only rule).router := sight_only a.router rule
  unfold Arrival.aftermath Arrival.turns Arrival.verdicts
  rw [hrules]
  refine ⟨?_, ?_, verdicts_eq _ _ _ hsight⟩
  · rw [run_applyRules_cons]
    rfl
  · apply record_of_rules _ _ _ hsight _ rule (List.mem_singleton.mpr rfl)
    · exact List.nodup_singleton _
    · intro other hother
      rw [List.mem_singleton.mp hother]
      exact onRecord_only a.router rule

theorem record_of_turns {a : Arrival} (h : a.router.store.Sound) {rule : Rule}
    (hr : rule ∈ a.rules) :
    a.aftermath.onRecord rule.id = some (a.filed rule) := by
  have hrules : a.rules = a.router.store.rulesFor a.entry.project a.entry.topic true := heard_eq h _
  apply record_of_rules _ _ _ (SameSight.refl _) _ rule hr
  · rw [hrules]
    exact Store.nodup_rulesFor h.keyed _ _
  · intro other hother
    rw [hrules] at hother
    unfold onRecord
    rw [Table.get?_id h.keyed (Store.mem_rulesFor.mp hother).1]
    rfl

theorem run_routed {r : Router} {m : InboundMessage} {path : TopicPath}
    (h : destination m r.namespaceName = .routed path) :
    let a := r.arrival (Entry.ofMessage path m r.now)
    (handle m).run r = (.routed a.entry a.turns.1, a.aftermath) ∧ r.verdictsOn m = a.verdicts := by
  dsimp only
  unfold verdictsOn
  rw [run_handle, h]
  exact ⟨run_route _ r, rfl⟩

theorem undisturbed {r : Router} (h : r.store.Sound) {m : InboundMessage} {path : TopicPath}
    (hd : destination m r.namespaceName = .routed path) {rule : Rule} {outcome : RuleOutcome}
    (hn : outcome.ruleId = rule.id) :
    let a := r.arrival (Entry.ofMessage path m r.now)
    rule ∈ a.rules → outcome.status.Alike (a.status rule) →
      Undisturbed r m a.entry rule (a.verdict rule) outcome := by
  intro a hr hs
  have ha : a.router.store.Sound := sound_arrival h _
  have ho : (r.only rule).arrival (Entry.ofMessage path m r.now) = a.only rule :=
    arrival_withRules r _ _
  obtain ⟨hone, hfiled, hverdict⟩ := turns_only ha hr
  obtain ⟨hrun, -⟩ := run_routed hd
  have halone : (handle m).run (r.only rule) =
        (.routed (a.only rule).entry (a.only rule).turns.1, (a.only rule).aftermath) ∧
      (r.only rule).verdictsOn m = (a.only rule).verdicts := by
    rw [← ho]
    exact run_routed (r := r.only rule) hd
  refine ⟨hn, halone.2.trans hverdict, ⟨a.status rule, ?_, hs⟩, ⟨a.filed rule, ?_, ?_⟩⟩
  · rw [halone.1, hone]
    rfl
  · rw [hrun]
    exact record_of_turns ha hr
  · rw [halone.1]
    exact hfiled

inductive Event where
  | arrive (m : InboundMessage)
  | elapse (ms : Nat)
  | cancelAll
  | connect (connection : Connection)
  | saveRule (rule : Rule)
  | removeRule (id : String)
  | saveKnownTopic (k : KnownTopic)
  | removeKnownTopic (project topic : String)
  | saveDevice (d : Device)
  | load

def next (r : Router) : Event → Router
  | .arrive m => ((handle m).run r).2
  | .elapse ms => { r with outbound := r.outbound.advance ms }
  | .cancelAll => { r with outbound := r.outbound.cancelAll }
  | .connect connection => { r with outbound := { r.outbound with connection } }
  | .saveRule rule => ((onStore (Store.saveRule rule)).run r).2
  | .removeRule id => { r with store := r.store.removeRule id }
  | .saveKnownTopic k => ((onStore (Store.saveKnownTopic k)).run r).2
  | .removeKnownTopic project topic => { r with store := r.store.removeKnownTopic project topic }
  | .saveDevice d => ((onStore (Store.saveDevice d)).run r).2
  | .load => ((onStore Store.loadAll).run r).2

/-- Reached from a router that has no rules yet and can load them. -/
def Reachable (r : Router) : Prop :=
  ∃ (start : Router) (events : List Event), start.store.rules = .empty ∧
    .loadRules ∉ start.store.outages ∧ r = events.foldl next start

theorem sound_turns (previous : Option String) (payload : String) (rules : List Rule) :
    ∀ {r : Router}, r.store.Sound →
      ((applyRules previous payload rules).run r).2.store.Sound :=
  preserved_turns (P := fun r => r.store.Sound) fun _ _ _ h => Store.sound_keeping h _

theorem sound_handle {r : Router} (h : r.store.Sound) (m : InboundMessage) :
    ((handle m).run r).2.store.Sound := by
  cases hd : destination m r.namespaceName with
  | control =>
    rw [run_handle, hd]
    exact Store.sound_of_registry h (inherited_registry.handleLost _ r)
  | ignored reason =>
    rw [run_handle, hd]
    exact h
  | routed path =>
    let a := r.arrival (Entry.ofMessage path m r.now)
    rw [(run_routed hd).1]
    dsimp only
    rw [aftermath_store]
    exact sound_turns a.previous a.entry.payload a.rules (sound_arrival h _)

theorem sound_next {r : Router} (h : r.store.Sound) (e : Event) : (r.next e).store.Sound := by
  cases e with
  | arrive m => exact sound_handle h m
  | saveRule rule => exact Store.sound_keeping h rule
  | removeRule id => exact ⟨Table.keyed_erase h.keyed id, h.loadable⟩
  | saveKnownTopic k => exact Store.sound_of_registry h (Store.inherited_aside.saveKnownTopic k _)
  | saveDevice d => exact Store.sound_of_registry h (Store.inherited_aside.saveDevice d _)
  | load => exact Store.careful_loadAll _ h
  | _ => exact ⟨h.keyed, h.loadable⟩

theorem sound_run {r : Router} (h : r.store.Sound) (events : List Event) :
    (events.foldl next r).store.Sound := by
  induction events generalizing r with
  | nil => exact h
  | cons e events ih => exact ih (sound_next h e)

theorem reachable_sound {r : Router} (h : Reachable r) : r.store.Sound := by
  obtain ⟨start, events, hr, ho, rfl⟩ := h
  apply sound_run
  refine ⟨?_, ho⟩
  rw [hr]
  exact Table.keyed_empty

theorem parse_of_destination {m : InboundMessage} {namespaceName : String} {path : TopicPath}
    (h : destination m namespaceName = .routed path) : TopicPath.parse m.topic = .ok path := by
  unfold destination at h
  split at h
  · cases h
  · cases hp : TopicPath.parse m.topic with
    | error e =>
      rw [hp] at h
      cases h
    | ok found =>
      rw [hp] at h
      dsimp only at h
      split at h
      · cases h
      · cases h
        rfl

theorem track_entry (e : Entry) (r : Router) :
    ((track e).run r).1 = e ∨ ∃ k, ((track e).run r).1 = described e k := by
  unfold track
  rw [StateT.run_bind, run_onStore]
  rcases ((Store.getKnownTopic e.project e.topic).run.run r.store).1 with _ | _ | k
  · exact Or.inl rfl
  · exact Or.inl rfl
  · right
    refine ⟨k, ?_⟩
    change (StateT.run (if k.keepHistory = true then _ else _ : RouterM Entry) _).1 = _
    split <;> rfl

theorem entry_arrival (r : Router) (e : Entry) :
    (r.arrival e).entry.project = e.project ∧ (r.arrival e).entry.topic = e.topic := by
  have he : (r.arrival e).entry = ((track e).run r).1 := rfl
  rcases track_entry e r with h | ⟨k, h⟩
  · rw [he, h]
    exact ⟨rfl, rfl⟩
  · rw [he, h]
    exact ⟨rfl, rfl⟩

theorem destination_of_routed {r : Router} {m : InboundMessage} {e : Entry}
    {outcomes : List RuleOutcome} (h : ((handle m).run r).1 = .routed e outcomes) :
    ∃ path, destination m r.namespaceName = .routed path := by
  rw [run_handle] at h
  cases hd : destination m r.namespaceName with
  | control =>
    rw [hd] at h
    cases h
  | ignored reason =>
    rw [hd] at h
    cases h
  | routed path => exact ⟨path, rfl⟩

/-- The outcomes of a message are those of the enabled rules of its project and topic, one for
each, by priority and id, and each rule fares as if it were the only one. -/
theorem rules_in_order_undisturbed {r : Router} (h : Reachable r) {m : InboundMessage} {e : Entry}
    {outcomes : List RuleOutcome} (hm : ((handle m).run r).1 = .routed e outcomes) :
    (∃ path, TopicPath.parse m.topic = .ok path ∧ e.project = path.project ∧
      e.topic = path.topic) ∧
    ∃ (rules : List Rule) (v : Rule → Verdict),
      rules.Pairwise Rule.Before ∧
      (∀ rule, rule ∈ rules ↔ rule ∈ r.store.rules.values ∧ rule.project = e.project ∧
        rule.sourceTopic = e.topic ∧ rule.enabled = true) ∧
      r.verdictsOn m = rules.map v ∧
      List.Forall₂ (fun rule outcome => Undisturbed r m e rule (v rule) outcome)
        rules outcomes := by
  obtain ⟨path, hd⟩ := destination_of_routed hm
  obtain ⟨hrun, hv⟩ := run_routed hd
  rw [hrun] at hm
  obtain ⟨rfl, rfl⟩ := MessageOutcome.routed.inj hm
  let a := r.arrival (Entry.ofMessage path m r.now)
  have hs : a.router.store.Sound := sound_arrival (reachable_sound h) _
  have hstore : a.router.store.rules = r.store.rules :=
    congrArg Prod.fst (inherited_registry.prepare (Entry.ofMessage path m r.now) r)
  have hrules : a.rules = a.router.store.rulesFor a.entry.project a.entry.topic true :=
    heard_eq hs a.entry
  have hsight := SameSight.refl a.router
  refine ⟨⟨path, parse_of_destination hd, entry_arrival r _⟩, a.rules, a.verdict, ?_, ?_, ?_, ?_⟩
  · rw [hrules]
    exact Store.ordered_rulesFor hs.keyed _ _
  · intro rule
    rw [hrules, Store.mem_rulesFor, hstore]
  · exact hv.trans (verdicts_eq _ _ _ hsight)
  · have halike := outcomes_alike a.previous a.entry.payload a.rules hsight
    have hmem := (List.forall₂_and_left a.rules a.turns.1).mpr ⟨fun rule hr => hr, halike⟩
    apply hmem.imp
    intro rule outcome ⟨hr, hn, hk⟩
    exact undisturbed (reachable_sound h) hd hn hr hk

def bell (id : String) (priority : Int) (delayMs : Nat) : Rule :=
  { (default : Rule) with
    id, priority, delayMs
    project := "p"
    sourceTopic := "t"
    targetTopic := "u"
    targetPayload := some "1"
    enabled := true }

def unruled : Router :=
  { namespaceName := "h"
    brokerHost := none
    cache := .new 1
    store := .inMemory .empty
    engine := ⟨fun _ _ => .ok "", fun _ => .ok .null⟩
    outbound := .empty }

def push : InboundMessage := ⟨"h/p/t", "", 0, false⟩

/-- The second of two rules for one message takes away the timer that the first has armed. -/
theorem bells_take_turns :
    let r := [Event.saveRule (bell "a" 2 10), .saveRule (bell "b" 1 10)].foldl next unruled
    let e := Entry.ofMessage ⟨"h", "p", "t"⟩ push r.now
    let outcomes := [⟨"b", .armed (.plain "h/p/u" "1")⟩,
      ⟨"a", .cancelled (.plain "h/p/u" "1")⟩]
    Reachable r ∧ ((handle push).run r).1 = .routed e outcomes ∧
      ∃ (rules : List Rule) (v : Rule → Verdict), r.verdictsOn push = rules.map v ∧
        List.Forall₂ (fun rule outcome => Undisturbed r push e rule (v rule) outcome) rules
          outcomes := by
  intro r e outcomes
  have hr : Reachable r := ⟨unruled, _, rfl, by decide, rfl⟩
  have hd : destination push r.namespaceName = .routed ⟨"h", "p", "t"⟩ := by cbv
  have he : (r.arrival e).entry = e := by cbv
  have ht : (r.arrival e).turns.1 = outcomes := by cbv
  have hm : ((handle push).run r).1 = .routed e outcomes := by
    rw [(run_routed hd).1]
    exact congrArg₂ MessageOutcome.routed he ht
  obtain ⟨-, rules, v, -, -, hv, hu⟩ := rules_in_order_undisturbed hr hm
  exact ⟨hr, hm, rules, v, hv, hu⟩

end Router

end TopicHub
