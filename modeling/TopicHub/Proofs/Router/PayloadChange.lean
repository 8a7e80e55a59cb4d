import TopicHub.Proofs.Address
import TopicHub.Proofs.Router.Isolation

/-!
Rules that ask for a change. A message is compared with the last one of its topic, whichever project
that came from: the memory is written by messages alone, after their rules have had their turns, and
does not tell projects apart. The messages that were routed are a ghost observation.
-/

namespace TopicHub.Router

theorem judge_eq_unchanged {rule : Rule} {c : Collaborators} {namespaceName payload : String}
    {previous : Option String} :
    rule.judge c namespaceName previous payload = .unchanged ↔
      rule.triggerCondition = .fireOnSourcePayloadChanged ∧ previous = some payload := by
  unfold Rule.judge
  split
  · rename_i h
    rw [Bool.and_eq_true, decide_eq_true_eq, decide_eq_true_eq] at h
    exact iff_of_true rfl h
  · rename_i h
    rw [Bool.and_eq_true, decide_eq_true_eq, decide_eq_true_eq] at h
    refine iff_of_false ?_ h
    split
    · exact nofun
    · split
      · split <;> exact nofun
      · exact nofun

/-- Of the two reasons to skip a rule, this one stands for an unchanged payload alone. -/
theorem skipped_iff_unchanged {o : Outbound} {rule : Rule} {v : Verdict} :
    (turn o rule v).status = .skipped noDataChange ↔ v = .unchanged := by
  cases v with
  | unchanged => exact iff_of_true rfl rfl
  | silent evaluation =>
    refine iff_of_false ?_ nofun
    intro h
    exact absurd (RuleStatus.skipped.inj h) (by decide)
  | send evaluation m =>
    refine iff_of_false ?_ nofun
    change (sending o (rule.record evaluation) m).status ≠ _
    rcases sending_cases o (rule.record evaluation) m with
      ⟨e, hs, -⟩ | ⟨hs, -⟩ | ⟨hs, -⟩ | ⟨hs, -⟩ <;> rw [hs] <;> exact nofun
  | _ => exact iff_of_false nofun nofun

theorem skipped_congr {a b : RuleStatus} (h : a.Alike b) (reason : String) :
    a = .skipped reason ↔ b = .skipped reason := by
  rcases h with rfl | ⟨m, rfl | rfl, rfl | rfl⟩
  · exact Iff.rfl
  all_goals exact iff_of_false nofun nofun

theorem inherited_cache : Inherited (Preserves Router.cache) := inherited_apart fun _ _ _ => rfl

theorem cache_turns (previous : Option String) (payload : String) (rules : List Rule) :
    ∀ r : Router, ((applyRules previous payload rules).run r).2.cache = r.cache := fun r =>
  preserved_turns (P := fun u => u.cache = r.cache) (fun _ _ _ h => h) rfl

theorem cache_arrival (r : Router) (e : Entry) : (r.arrival e).router.cache = r.cache :=
  inherited_cache.prepare e r

theorem previous_arrival (r : Router) (e : Entry) :
    (r.arrival e).previous = r.cache.get? (r.arrival e).entry.topic := by
  rw [← cache_arrival r e]
  rfl

theorem cache_aftermath (r : Router) (e : Entry) :
    (r.arrival e).aftermath.cache = (r.cache.put (r.arrival e).entry).1 := by
  unfold Arrival.aftermath Arrival.turns
  dsimp only
  rw [cache_turns, cache_arrival]

theorem mem_rules_arrival {r : Router} (h : r.store.Sound) {e : Entry} {rule : Rule} :
    let a := r.arrival e
    rule ∈ a.rules ↔ rule ∈ r.store.rules.values ∧ rule.project = a.entry.project ∧
      rule.sourceTopic = a.entry.topic ∧ rule.enabled = true := by
  intro a
  have hrules : a.rules = a.router.store.rulesFor a.entry.project a.entry.topic true :=
    heard_eq (sound_arrival h e) a.entry
  have hstore : a.router.store.rules = r.store.rules :=
    congrArg Prod.fst (inherited_registry.prepare e r)
  rw [hrules, Store.mem_rulesFor, hstore]

theorem addressed_arrival (r : Router) {m : InboundMessage} {path : TopicPath} {space : String}
    (h : destination m space = .routed path) (now : Instant) :
    (r.arrival (Entry.ofMessage path m now)).entry.Addressed := by
  obtain ⟨hs, hp⟩ := segments_of_parse (parse_of_destination h)
  have he : (r.arrival (Entry.ofMessage path m now)).entry =
      ((track (Entry.ofMessage path m now)).run r).1 := rfl
  rcases track_entry (Entry.ofMessage path m now) r with ht | ⟨k, ht⟩
  · rw [he, ht]
    exact ⟨hs, hp⟩
  · rw [he, ht]
    exact ⟨hs, hp⟩

/-- A router, and the messages that it has routed, from the first one on. -/
structure Journal where
  router : Router
  routed : List Entry

def routedMessage? : MessageOutcome → Option Entry
  | .routed e _ => some e
  | _ => none

def routedBy (r : Router) : Event → Option Entry
  | .arrive m => routedMessage? ((handle m).run r).1
  | _ => none

def Journal.next (j : Journal) (event : Event) : Journal :=
  ⟨j.router.next event, j.routed ++ (routedBy j.router event).toList⟩

structure Remembers (capacity : Nat) (j : Journal) : Prop where
  cache : j.router.cache = (RecentCache.new capacity).putAll j.routed
  sound : j.router.store.Sound
  addressed : ∀ e ∈ j.routed, e.Addressed

theorem remember_event (r : Router) (event : Event) :
    (routedBy r event = none ∧ (r.next event).cache = r.cache) ∨
    ∃ e, routedBy r event = some e ∧ e.Addressed ∧ (r.next event).cache = (r.cache.put e).1 := by
  cases event with
  | arrive m =>
    change (routedMessage? ((handle m).run r).1 = none ∧ ((handle m).run r).2.cache = r.cache) ∨
      ∃ e, routedMessage? ((handle m).run r).1 = some e ∧ e.Addressed ∧
        ((handle m).run r).2.cache = (r.cache.put e).1
    cases hd : destination m r.namespaceName with
    | control =>
      left
      rw [run_handle, hd]
      exact ⟨rfl, inherited_cache.handleLost _ r⟩
    | ignored reason =>
      left
      rw [run_handle, hd]
      exact ⟨rfl, rfl⟩
    | routed path =>
      right
      rw [(run_routed hd).1]
      exact ⟨_, rfl, addressed_arrival r hd r.now, cache_aftermath r _⟩
  | _ => exact Or.inl ⟨rfl, rfl⟩

theorem step_remembers {capacity : Nat} {j : Journal} (h : Remembers capacity j) (event : Event) :
    Remembers capacity (j.next event) := by
  unfold Journal.next
  rcases remember_event j.router event with ⟨hn, hc⟩ | ⟨e, hr, ha, hc⟩
  · rw [hn, Option.toList_none, List.append_nil]
    exact ⟨hc.trans h.cache, sound_next h.sound event, h.addressed⟩
  · rw [hr, Option.toList_some]
    refine ⟨?_, sound_next h.sound event, ?_⟩
    · unfold RecentCache.putAll
      rw [List.foldl_concat, hc, h.cache]
      rfl
    · intro x hx
      rcases List.mem_append.mp hx with hx | hx
      · exact h.addressed x hx
      · rw [List.mem_singleton.mp hx]
        exact ha

theorem run_remembers {capacity : Nat} {j : Journal} (h : Remembers capacity j)
    (events : List Event) : Remembers capacity (events.foldl Journal.next j) := by
  induction events generalizing j with
  | nil => exact h
  | cons event events ih => exact ih (step_remembers h event)

theorem last_of_topic_eq_iff {capacity : Nat} {j : Journal} (h : Remembers capacity j) {e : Entry}
    (he : e.Addressed) :
    j.routed.findRev? (·.topic = e.topic) = j.routed.findRev? (·.address = e.address) ↔
      ∀ b, j.routed.findRev? (·.topic = e.topic) = some b → b.address = e.address := by
  constructor
  · intro heq b hb
    rw [heq] at hb
    exact of_decide_eq_true (Ends.of_findRev? hb).2
  · intro ha
    cases hb : j.routed.findRev? (·.topic = e.topic) with
    | none =>
      refine (Ends.findRev?_eq_none.mpr fun x hx hxe => ?_).symm
      refine Ends.findRev?_eq_none.mp hb x hx (decide_eq_true ?_)
      exact Entry.topic_of_address (h.addressed x hx) he (of_decide_eq_true hxe)
    | some b =>
      have htopic : b.topic = e.topic := of_decide_eq_true (Ends.of_findRev? hb).2
      rw [← htopic] at hb
      have hlast := RecentCache.last_at_address h.addressed hb
      rw [ha b (htopic ▸ hb)] at hlast
      exact hlast.symm

/-- As long as there is room in the memory for all topics, the rules of a message that are skipped for
want of a change are those that ask for one, and all of these if the last message of its topic, from
any project, had its payload. That message is the last one with the same address just when it has
that address. -/
theorem skipped_iff_topic_unchanged {start : Router} {capacity : Nat}
    (hc : start.cache = .new capacity) (hs : start.store.Sound) (events : List Event)
    {m : InboundMessage} {e : Entry} {outcomes : List RuleOutcome} :
    let j := events.foldl Journal.next ⟨start, []⟩
    ((handle m).run j.router).1 = .routed e outcomes →
    (j.routed.map Entry.topic).dedup.length ≤ max capacity 1 →
    let last := j.routed.findRev? (·.topic = e.topic)
    (∃ rules : List Rule,
      (∀ rule, rule ∈ rules ↔ rule ∈ j.router.store.rules.values ∧ rule.project = e.project ∧
        rule.sourceTopic = e.topic ∧ rule.enabled = true) ∧
      List.Forall₂ (fun rule outcome => outcome.ruleId = rule.id ∧
          (outcome.status = .skipped noDataChange ↔
            rule.triggerCondition = .fireOnSourcePayloadChanged ∧
              last.map Entry.payload = some e.payload)) rules outcomes) ∧
    (last = j.routed.findRev? (·.address = e.address) ↔
      ∀ b, last = some b → b.address = e.address) := by
  intro j hm hroom last
  have h : Remembers capacity j := run_remembers ⟨hc, hs, List.forall_mem_nil _⟩ events
  obtain ⟨path, hd⟩ := destination_of_routed hm
  rw [(run_routed hd).1] at hm
  obtain ⟨rfl, rfl⟩ := MessageOutcome.routed.inj hm
  let a := j.router.arrival (Entry.ofMessage path m j.router.now)
  have hprevious : a.previous = last.map Entry.payload := by
    rw [previous_arrival, h.cache]
    exact RecentCache.get?_putAll hroom _
  refine ⟨⟨a.rules, fun rule => mem_rules_arrival h.sound, ?_⟩,
    last_of_topic_eq_iff h (addressed_arrival j.router hd _)⟩
  apply (outcomes_alike a.previous a.entry.payload a.rules (SameSight.refl a.router)).imp
  intro rule outcome ⟨hn, hk⟩
  refine ⟨hn, ?_⟩
  rw [skipped_congr hk, ← hprevious]
  exact skipped_iff_unchanged.trans judge_eq_unchanged

def roomy : Router := { unruled with cache := .new 4 }

def attentive : Rule := { bell "a" 1 0 with triggerCondition := .fireOnSourcePayloadChanged }

def press (project payload : String) : InboundMessage :=
  ⟨"h/" ++ project ++ "/t", payload, 0, false⟩

/-- Nothing has come between two messages of one address. -/
theorem same_press_skipped :
    let j := [Event.saveRule attentive, .arrive (press "p" "1")].foldl Journal.next ⟨roomy, []⟩
    let e := Entry.ofMessage ⟨"h", "p", "t"⟩ (press "p" "1") j.router.now
    ((handle (press "p" "1")).run j.router).1 = .routed e [⟨"a", .skipped noDataChange⟩] ∧
      (j.routed.map Entry.topic).dedup.length ≤ max 4 1 ∧
      (j.routed.findRev? (·.topic = "t")).map Entry.payload = some "1" := by
  intro j e
  have hs : roomy.store.Sound := ⟨Table.keyed_empty, by decide⟩
  have hm : ((handle (press "p" "1")).run j.router).1 =
      .routed e [⟨"a", .skipped noDataChange⟩] := by decide +kernel
  have hroom : (j.routed.map Entry.topic).dedup.length ≤ max 4 1 := by decide +kernel
  obtain ⟨⟨rules, -, ho⟩, -⟩ := skipped_iff_topic_unchanged rfl hs _ hm hroom
  obtain ⟨rule, -, ⟨-, hk⟩, -, -⟩ := List.forall₂_cons_right_iff.mp ho
  exact ⟨hm, hroom, (hk.mp rfl).2⟩

/-- A message from another project has the payload already, and hides that it is new at its own
address. -/
theorem other_project_hides_change :
    let j := [Event.saveRule attentive, .arrive (press "p" "0"), .arrive (press "q" "1")].foldl
      Journal.next ⟨roomy, []⟩
    let e := Entry.ofMessage ⟨"h", "p", "t"⟩ (press "p" "1") j.router.now
    ((handle (press "p" "1")).run j.router).1 = .routed e [⟨"a", .skipped noDataChange⟩] ∧
      (j.routed.map Entry.topic).dedup.length = 1 ∧
      (j.routed.findRev? (·.address = e.address)).map Entry.payload = some "0" := by
  decide +kernel

end TopicHub.Router
