import TopicHub.Proofs.Router.PublishAccounting
import TopicHub.Proofs.Router.Tracking

/-!
What messages leave on record. A rule that had its turn is saved with the result of its evaluation,
the protocol and, if it fired or took a timer back, the time; nothing else of it changes, and no
other rule does. Reports tell a failed condition from a failure after a match by the condition
alone, which is evaluated against what can be looked up when the rules have their turns.
-/

namespace TopicHub

namespace RuleStatus

def FollowsMatch (condition : Except RuleError Evaluation) : RuleStatus → Prop
  | .published _ | .armed _ | .cancelled _ => True
  | .skipped reason => reason = noTargetPayload
  | .failed _ => ∃ e, condition = .ok e ∧ e.isMatch = true
  | .notMatched => False

def FollowsMismatch (condition : Except RuleError Evaluation) : RuleStatus → Prop
  | .notMatched => True
  | .skipped reason => reason = noDataChange
  | .failed reason => ∃ e, condition = .error e ∧ reason = e.message
  | .published _ | .armed _ | .cancelled _ => False

theorem FollowsMatch.not_followsMismatch {condition : Except RuleError Evaluation} {s : RuleStatus}
    (h : s.FollowsMatch condition) : ¬ s.FollowsMismatch condition := by
  intro k
  cases s with
  | skipped reason =>
    have hn : noTargetPayload = noDataChange := h.symm.trans k
    exact absurd hn (by decide)
  | failed reason =>
    obtain ⟨e, he, -⟩ := h
    obtain ⟨err, hr, -⟩ := k
    rw [he] at hr
    cases hr
  | notMatched => exact h
  | _ => exact k

def marksTime : RuleStatus → Bool
  | .published _ | .cancelled _ => true
  | _ => false

end RuleStatus

/-- How a rule is kept after its turn. -/
structure Audited (now : Instant) (condition : Except RuleError Evaluation) (rule kept : Rule)
    (status : RuleStatus) : Prop where
  frame : kept = { rule with
    evaluationResult := kept.evaluationResult
    evaluationProtocol := kept.evaluationProtocol
    lastTrigger := kept.lastTrigger }
  matched : kept.evaluationResult = true ↔ status.FollowsMatch condition
  unmatched : kept.evaluationResult = false ↔ status.FollowsMismatch condition
  triggered : kept.lastTrigger = if status.marksTime then some now else rule.lastTrigger

theorem audited_record {now : Instant} {condition : Except RuleError Evaluation} {rule : Rule}
    {status : RuleStatus} (e : Evaluation) {time : Option Instant}
    (he : if e.isMatch then status.FollowsMatch condition else status.FollowsMismatch condition)
    (ht : time = if status.marksTime then some now else rule.lastTrigger) :
    Audited now condition rule { rule.record e with lastTrigger := time } status := by
  cases hm : e.isMatch with
  | true =>
    rw [hm, if_pos rfl] at he
    have hn : ¬ (rule.record e).evaluationResult = false := by simp [Rule.record, hm]
    exact ⟨rfl, iff_of_true hm he, iff_of_false hn he.not_followsMismatch, ht⟩
  | false =>
    rw [hm, if_neg Bool.false_ne_true] at he
    exact ⟨rfl, iff_of_false (by simp [Rule.record, hm]) fun h => h.not_followsMismatch he,
      iff_of_true hm he, ht⟩

namespace Router

theorem judge_cases (rule : Rule) (c : Collaborators) (namespaceName : String)
    (previous : Option String) (payload : String) :
    let condition := (Expression.evaluate c rule.expression payload).result
    let v := rule.judge c namespaceName previous payload
    v = .unchanged ∨ (∃ e, condition = .error e ∧ v = .undecided e) ∨
    ∃ evaluation, condition = .ok evaluation ∧
      (evaluation.isMatch = false ∧ v = .mismatch evaluation ∨
        evaluation.isMatch = true ∧
          (v = .silent evaluation ∨ (∃ e, v = .unresolved evaluation e) ∨
            ∃ m, v = .send evaluation m)) := by
  intro condition v
  by_cases hu : rule.triggerCondition = .fireOnSourcePayloadChanged ∧ previous = some payload
  · exact .inl (judge_eq_unchanged.mpr hu)
  · right
    have hasked : ¬ (rule.triggerCondition = .fireOnSourcePayloadChanged &&
        previous = some payload) = true := by simpa using hu
    rcases hc : condition with e | evaluation
    · have hc : (Expression.evaluate c rule.expression payload).result = .error e := hc
      exact .inl ⟨e, rfl, by simp only [v, Rule.judge, if_neg hasked, hc]⟩
    · have hc : (Expression.evaluate c rule.expression payload).result = .ok evaluation := hc
      right
      refine ⟨evaluation, rfl, ?_⟩
      by_cases hm : evaluation.isMatch = true
      · right
        refine ⟨hm, ?_⟩
        rcases ht : (Template.resolve c rule.targetPayload payload).result with e | _ | text
        · exact .inr (.inl ⟨e, by simp only [v, Rule.judge, if_neg hasked, hc, if_pos hm, ht]⟩)
        · exact .inl (by simp only [v, Rule.judge, if_neg hasked, hc, if_pos hm, ht])
        · refine .inr (.inr ⟨.plain (rule.target namespaceName) text, ?_⟩)
          simp only [v, Rule.judge, if_neg hasked, hc, if_pos hm, ht]
      · left
        exact ⟨by simpa using hm, by simp only [v, Rule.judge, if_neg hasked, hc, if_neg hm]⟩

theorem sending_kept (o : Outbound) (rule : Rule) (m : OutboundMessage) :
    let t := sending o rule m
    t.rule = { rule with lastTrigger :=
      if t.status.marksTime then some (Instant.ofMillis o.clock) else rule.lastTrigger } := by
  intro t
  cases hs : o.schedule m rule.delayMs with
  | error e =>
    simp only [t, sending, hs]
    rfl
  | ok u =>
    rcases u with ⟨u, _ | _ | _⟩
    all_goals
      simp only [t, sending, hs]
      rfl

theorem sending_follows (o : Outbound) (rule : Rule) (m : OutboundMessage) {e : Evaluation}
    (h : e.isMatch = true) : (sending o rule m).status.FollowsMatch (.ok e) := by
  rcases sending_cases o rule m with ⟨reason, hs, -⟩ | ⟨hs, -⟩ | ⟨hs, -⟩ | ⟨hs, -⟩ <;> rw [hs]
  · exact ⟨e, rfl, h⟩
  all_goals trivial

theorem audited_turn (o : Outbound) (rule : Rule) (c : Collaborators) (namespaceName : String)
    (previous : Option String) (payload : String) :
    let t := turn o rule (rule.judge c namespaceName previous payload)
    Audited (Instant.ofMillis o.clock) (Expression.evaluate c rule.expression payload).result rule
      t.rule t.status := by
  intro t
  rcases judge_cases rule c namespaceName previous payload with
    hv | ⟨e, hc, hv⟩ | ⟨evaluation, hc, ⟨hm, hv⟩ | ⟨hm, hv | ⟨e, hv⟩ | ⟨m, hv⟩⟩⟩
  all_goals simp only [t, hv]
  · exact audited_record (.negative noDataChange) rfl rfl
  · exact audited_record (rule.undecidedEvaluation e) ⟨e, hc, rfl⟩ rfl
  · exact audited_record evaluation (by simp [hm, turn, RuleStatus.FollowsMismatch]) rfl
  · exact audited_record evaluation (by simp [hm, turn, RuleStatus.FollowsMatch]) rfl
  · exact audited_record evaluation (by simp [hm, hc, turn, RuleStatus.FollowsMatch]) rfl
  · change Audited _ _ _ (sending o (rule.record evaluation) m).rule
      (sending o (rule.record evaluation) m).status
    rw [sending_kept, hc]
    exact audited_record evaluation (by simp [hm, sending_follows]) rfl

theorem ids_turns (previous : Option String) (payload : String) (rules : List Rule) :
    ∀ r : Router, ((applyRules previous payload rules).run r).1.map RuleOutcome.ruleId =
      rules.map Rule.id := by
  induction rules with
  | nil => exact fun _ => rfl
  | cons rule rules ih =>
    intro r
    rw [run_applyRules_cons, List.map_cons, List.map_cons, ih]

/-- What is kept of a rule in the end is what its own turn has left of it. -/
theorem audited_turns {r : Router} (previous : Option String) (payload : String)
    {rules : List Rule} (hn : (rules.map Rule.id).Nodup) : ∀ {u : Router}, SameSight r u →
      u.outbound.clock = r.outbound.clock → (∀ rule ∈ rules, r.store.Accepts rule) →
      let done := (applyRules previous payload rules).run u
      ∀ outcome ∈ done.1, ∃ rule ∈ rules, outcome.ruleId = rule.id ∧
        ∃ kept, done.2.store.rules.get? rule.id = some kept ∧
          Audited r.now (Expression.evaluate r.collaborators rule.expression payload).result rule
            kept outcome.status := by
  induction rules with
  | nil => exact fun _ _ _ _ ho => nomatch ho
  | cons first rules ih =>
    intro u hs hc ha done outcome ho
    obtain ⟨hf, hn⟩ := List.nodup_cons.mp hn
    obtain ⟨hfirst, hrest⟩ := List.forall_mem_cons.mp ha
    let t := u.turnOf previous payload first
    have hdone : done = (⟨first.id, t.status⟩ :: ((applyRules previous payload rules).run
        (u.after t)).1, ((applyRules previous payload rules).run (u.after t)).2) :=
      run_applyRules_cons previous payload first rules u
    rw [hdone] at ho ⊢
    rcases List.mem_cons.mp ho with rfl | ho
    · refine ⟨first, List.mem_cons_self .., rfl, t.rule, ?_, ?_⟩
      · have hi : t.rule.id = first.id := id_turnOf u previous payload first
        have hacc : u.store.Accepts t.rule := (Store.accepts_congr hs.outages hi).mpr hfirst
        rw [get?_of_others _ _ hf, get?_after, if_pos ⟨hi.symm, hacc⟩]
      · have hv : t = turn u.outbound first (r.verdict previous payload first) := by
          simp only [t, turnOf, hs.verdict_eq]
        rw [hv]
        simp only [now]
        rw [← hc]
        exact audited_turn u.outbound first r.collaborators r.namespaceName previous payload
    · have hclock : (u.after t).outbound.clock = r.outbound.clock := (turn_clock ..).trans hc
      obtain ⟨rule, hr, h⟩ := ih hn (hs.after previous payload first) hclock hrest outcome ho
      exact ⟨rule, List.mem_cons_of_mem _ hr, h⟩

def sightOn (r : Router) (m : InboundMessage) : Collaborators :=
  match destination m r.namespaceName with
  | .routed path => (r.arrival (Entry.ofMessage path m r.now)).router.collaborators
  | _ => r.collaborators

theorem rules_of_unrouted {r : Router} {m : InboundMessage}
    (h : ∀ path, destination m r.namespaceName ≠ .routed path) :
    ((handle m).run r).1.rules = [] ∧ ((handle m).run r).2.store.rules = r.store.rules := by
  rw [run_handle]
  cases hd : destination m r.namespaceName with
  | control => exact ⟨rfl, congrArg Prod.fst (inherited_registry.handleLost m.payload r)⟩
  | ignored reason => exact ⟨rfl, rfl⟩
  | routed path => exact absurd hd (h path)

/-- The rules that have turns are in the store, each under an id of its own, and can be saved. -/
theorem rules_arrival_stored {r : Router} (h : r.store.Sound) (hs : .saveRule ∉ r.store.outages)
    (hi : ∀ rule ∈ r.store.rules.values, rule.id.isEmpty = false) (e : Entry) :
    let a := r.arrival e
    (a.rules.map Rule.id).Nodup ∧ ∀ rule ∈ a.rules,
      r.store.rules.get? rule.id = some rule ∧ a.router.store.Accepts rule := by
  intro a
  have hreg : a.router.store.registry = r.store.registry := inherited_registry.prepare e r
  have hsound : a.router.store.Sound := sound_arrival h e
  have hheard : a.rules = a.router.store.rulesFor a.entry.project a.entry.topic true :=
    heard_eq hsound a.entry
  constructor
  · rw [hheard]
    exact Store.nodup_rulesFor hsound.keyed _ _
  · intro rule hr
    obtain ⟨hmem, -⟩ := (mem_rules_arrival h).mp hr
    refine ⟨Table.get?_id h.keyed hmem, ?_, hi rule hmem⟩
    rw [show a.router.store.outages = r.store.outages from congrArg Prod.snd hreg]
    exact hs

/-- After a message the rules that were reported, each once, are kept with what became of them, and
all others are as they were. -/
theorem rules_audited {r : Router} (h : Reachable r) (hs : .saveRule ∉ r.store.outages)
    (hi : ∀ rule ∈ r.store.rules.values, rule.id.isEmpty = false) (m : InboundMessage) :
    let outcomes := ((handle m).run r).1.rules
    let rules := ((handle m).run r).2.store.rules
    (outcomes.map RuleOutcome.ruleId).Nodup ∧
    (∀ id, id ∉ outcomes.map RuleOutcome.ruleId → rules.get? id = r.store.rules.get? id) ∧
    ∀ outcome ∈ outcomes, ∃ rule kept, r.store.rules.get? outcome.ruleId = some rule ∧
      rules.get? outcome.ruleId = some kept ∧
      Audited r.now (Expression.evaluate (r.sightOn m) rule.expression m.payload).result rule kept
        outcome.status := by
  by_cases hd : ∃ path, destination m r.namespaceName = .routed path
  · obtain ⟨path, hd⟩ := hd
    let e := Entry.ofMessage path m r.now
    let a := r.arrival e
    have hrun : (handle m).run r = (.routed a.entry a.turns.1, a.aftermath) := (run_routed hd).1
    have hsight : r.sightOn m = a.router.collaborators := by simp only [sightOn, hd, a, e]
    have hstored : a.router.store.rules = r.store.rules :=
      congrArg Prod.fst (inherited_registry.prepare e r)
    obtain ⟨hn, hrules⟩ := rules_arrival_stored (reachable_sound h) hs hi e
    have hids : a.turns.1.map RuleOutcome.ruleId = a.rules.map Rule.id := ids_turns ..
    rw [hrun, hsight]
    simp only [MessageOutcome.rules, aftermath_store, hids]
    refine ⟨hn, ?_, ?_⟩
    · intro id hid
      rw [← hstored]
      exact get?_of_others _ _ hid a.router
    · intro outcome ho
      obtain ⟨rule, hr, hid, kept, hk, haudit⟩ := audited_turns a.previous a.entry.payload hn
        (SameSight.refl a.router) rfl (fun rule hr => (hrules rule hr).2) outcome ho
      have hpayload : a.entry.payload = m.payload := payload_arrival r e
      have hnow : a.router.now = r.now := now_arrival r e
      rw [hpayload, hnow] at haudit
      rw [hid]
      exact ⟨rule, kept, (hrules rule hr).1, hk, haudit⟩
  · obtain ⟨ho, hr⟩ := rules_of_unrouted fun path hp => hd ⟨path, hp⟩
    rw [ho, hr]
    refine ⟨List.nodup_nil, fun _ _ => rfl, ?_⟩
    intro outcome ho
    cases ho

/-- Of two bells for one message the first arms a timer and the second takes it back, which is when
it keeps the time; a bell for another topic stays as it was. -/
theorem bells_audited :
    let other := { bell "c" 0 0 with sourceTopic := "v" }
    let r := [Event.saveRule (bell "a" 2 10), .saveRule (bell "b" 1 10), .saveRule other].foldl next
      unruled
    let rules := ((handle push).run r).2.store.rules
    Reachable r ∧ .saveRule ∉ r.store.outages ∧
      (∀ rule ∈ r.store.rules.values, rule.id.isEmpty = false) ∧
      rules.get? "c" = some other ∧
      ∃ a b, rules.get? "a" = some a ∧ rules.get? "b" = some b ∧
        a.evaluationResult = true ∧ a.lastTrigger = some r.now ∧
        b.evaluationResult = true ∧ b.lastTrigger = none := by
  intro other r rules
  have hr : Reachable r := ⟨unruled, _, rfl, by decide, rfl⟩
  have hs : .saveRule ∉ r.store.outages := by decide
  have hi : ∀ rule ∈ r.store.rules.values, rule.id.isEmpty = false := by
    have hv : r.store.rules.values = [bell "a" 2 10, bell "b" 1 10, other] := by cbv
    rw [hv]
    decide
  have ho : ((handle push).run r).1.rules = [⟨"b", .armed (.plain "h/p/u" "1")⟩,
      ⟨"a", .cancelled (.plain "h/p/u" "1")⟩] := by
    have hd : destination push r.namespaceName = .routed ⟨"h", "p", "t"⟩ := by cbv
    rw [(run_routed hd).1]
    cbv
  obtain ⟨-, hothers, hreported⟩ := rules_audited hr hs hi push
  rw [ho] at hothers hreported
  obtain ⟨hb, ha, -⟩ : _ ∧ _ ∧ _ := by simpa only [List.forall_mem_cons] using hreported
  obtain ⟨b, b', hgb, hkb, hb⟩ := hb
  obtain ⟨a, a', -, hka, ha⟩ := ha
  have hbell : b = bell "b" 1 10 := by
    have hg : r.store.rules.get? "b" = some (bell "b" 1 10) := by cbv
    exact Option.some.inj (hgb.symm.trans hg)
  refine ⟨hr, hs, hi, ?_, a', b', hka, hkb, ?_, ?_, ?_, ?_⟩
  · rw [hothers "c" (by decide)]
    cbv
  · exact ha.matched.mpr trivial
  · rw [ha.triggered]
    rfl
  · exact hb.matched.mpr trivial
  · rw [hb.triggered, hbell]
    rfl

end Router

end TopicHub
