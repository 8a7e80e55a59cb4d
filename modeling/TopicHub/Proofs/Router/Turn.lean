import TopicHub.Proofs.Router.Blindness

/-!
What happens when it is a rule's turn, as a function of its verdict and of the way out. What a
message does is then a preparation, which no rule takes part in, and one turn after the other.
-/

namespace TopicHub

/-- A rule as it is saved, what is reported, and the way out after it. -/
structure Turn where
  rule : Rule
  status : RuleStatus
  outbound : Outbound

def Verdict.recorded (rule : Rule) : Verdict → Evaluation
  | .unchanged => .negative noDataChange
  | .undecided e => rule.undecidedEvaluation e
  | .mismatch evaluation => evaluation
  | .silent evaluation => evaluation
  | .unresolved evaluation _ => evaluation
  | .send evaluation _ => evaluation

def RuleStatus.message? : RuleStatus → Option OutboundMessage
  | .published m => some m
  | .armed m => some m
  | .cancelled m => some m
  | _ => none

namespace Router

def sending (o : Outbound) (rule : Rule) (m : OutboundMessage) : Turn :=
  match o.schedule m rule.delayMs with
  | .error e => ⟨rule, .failed e.message, o⟩
  | .ok (u, scheduling) =>
    let triggered := { rule with lastTrigger := some (Instant.ofMillis o.clock) }
    match scheduling with
    | .published => ⟨triggered, .published m, u⟩
    | .armed => ⟨rule, .armed m, u⟩
    | .cancelled => ⟨triggered, .cancelled m, u⟩

def turn (o : Outbound) (rule : Rule) (v : Verdict) : Turn :=
  let kept := rule.record (v.recorded rule)
  match v with
  | .unchanged => ⟨kept, .skipped noDataChange, o⟩
  | .undecided e => ⟨kept, .failed e.message, o⟩
  | .mismatch _ => ⟨kept, .notMatched, o⟩
  | .silent _ => ⟨kept, .skipped noTargetPayload, o⟩
  | .unresolved _ e => ⟨kept, .failed e.message, o⟩
  | .send _ m => sending o kept m

theorem run_trigger (rule : Rule) (m : OutboundMessage) (r : Router) :
    (trigger rule m).run r =
      (((sending r.outbound rule m).rule, (sending r.outbound rule m).status),
        { r with outbound := (sending r.outbound rule m).outbound }) := by
  unfold sending
  change (match r.outbound.schedule m rule.delayMs with
    | .error e => pure (rule, .failed e.message)
    | .ok (outbound, scheduling) => do
      set { r with outbound }
      let triggered := { rule with lastTrigger := some r.now }
      match scheduling with
      | .published => pure (triggered, .published m)
      | .armed => pure (rule, .armed m)
      | .cancelled => pure (triggered, .cancelled m) : RouterM (Rule × RuleStatus)).run r = _
  rcases r.outbound.schedule m rule.delayMs with e | ⟨u, _ | _ | _⟩ <;> rfl

def verdict (r : Router) (previous : Option String) (payload : String) (rule : Rule) : Verdict :=
  rule.judge r.collaborators r.namespaceName previous payload

/-- The turn of a rule in a router. -/
def turnOf (r : Router) (previous : Option String) (payload : String) (rule : Rule) : Turn :=
  turn r.outbound rule (r.verdict previous payload rule)

def after (r : Router) (t : Turn) : Router :=
  { r with outbound := t.outbound, store := r.store.keeping t.rule }

theorem run_carryOut (rule : Rule) (v : Verdict) (r : Router) :
    (carryOut rule v).run r =
      ((turn r.outbound rule v).status, r.after (turn r.outbound rule v)) := by
  cases v with
  | send evaluation m =>
    change (trigger (rule.record evaluation) m >>= fun (answer : Rule × RuleStatus) => do
      saveRule answer.1
      pure answer.2).run r = _
    rw [StateT.run_bind, run_trigger]
    rfl
  | _ => rfl

theorem run_applyRule (previous : Option String) (payload : String) (rule : Rule) (r : Router) :
    (applyRule previous payload rule).run r =
      ((r.turnOf previous payload rule).status, r.after (r.turnOf previous payload rule)) :=
  run_carryOut rule _ r

theorem sending_cases (o : Outbound) (rule : Rule) (m : OutboundMessage) :
    let t := sending o rule m
    (∃ e, t.status = .failed e ∧ t.outbound = o) ∨
    (t.status = .published m ∧ t.outbound = { o with sent := o.sent ++ [⟨o.clock, m⟩] }) ∨
    (t.status = .armed m ∧ ¬ o.timers.Pending m.key ∧
      t.outbound = { o with timers := o.timers.arm m (o.clock + rule.delayMs) }) ∨
    (t.status = .cancelled m ∧ o.timers.Pending m.key ∧
      t.outbound = { o with timers := o.timers.cancel m }) := by
  unfold sending
  cases hs : o.schedule m rule.delayMs with
  | error e => exact Or.inl ⟨_, rfl, rfl⟩
  | ok u =>
    right
    obtain ⟨u, a⟩ := u
    rcases Outbound.schedule_cases hs with ⟨-, rfl, hu⟩ | ⟨-, hm, rfl, hu⟩ | ⟨-, hm, rfl, hu⟩
    · exact Or.inl ⟨rfl, hu⟩
    · exact Or.inr (Or.inl ⟨rfl, hm, hu⟩)
    · exact Or.inr (Or.inr ⟨rfl, hm, hu⟩)

/-- A turn publishes, arms or cancels the message it reports; if it reports none, nothing goes
out. -/
theorem turn_cases (o : Outbound) (rule : Rule) (v : Verdict) :
    let t := turn o rule v
    (t.status.message? = none ∧ t.outbound = o) ∨
    (∃ m, t.status = .published m ∧ t.outbound = { o with sent := o.sent ++ [⟨o.clock, m⟩] }) ∨
    (∃ m due, t.status = .armed m ∧ ¬ o.timers.Pending m.key ∧
      t.outbound = { o with timers := o.timers.arm m due }) ∨
    (∃ m, t.status = .cancelled m ∧ o.timers.Pending m.key ∧
      t.outbound = { o with timers := o.timers.cancel m }) := by
  cases v with
  | send evaluation m =>
    rcases sending_cases o (rule.record evaluation) m with
      ⟨e, hs, hu⟩ | ⟨hs, hu⟩ | ⟨hs, hm, hu⟩ | ⟨hs, hm, hu⟩
    · exact Or.inl ⟨congrArg RuleStatus.message? hs, hu⟩
    · exact Or.inr (Or.inl ⟨m, hs, hu⟩)
    · exact Or.inr (Or.inr (Or.inl ⟨m, _, hs, hm, hu⟩))
    · exact Or.inr (Or.inr (Or.inr ⟨m, hs, hm, hu⟩))
  | _ => exact Or.inl ⟨rfl, rfl⟩

theorem turn_connection (o : Outbound) (rule : Rule) (v : Verdict) :
    (turn o rule v).outbound.connection = o.connection := by
  rcases turn_cases o rule v with ⟨-, h⟩ | ⟨m, -, h⟩ | ⟨m, due, -, -, h⟩ | ⟨m, -, -, h⟩ <;> rw [h]

theorem turn_clock (o : Outbound) (rule : Rule) (v : Verdict) :
    (turn o rule v).outbound.clock = o.clock := by
  rcases turn_cases o rule v with ⟨-, h⟩ | ⟨m, -, h⟩ | ⟨m, due, -, -, h⟩ | ⟨m, -, -, h⟩ <;> rw [h]

theorem run_applyRules_cons (previous : Option String) (payload : String) (rule : Rule)
    (rules : List Rule) (r : Router) :
    let t := r.turnOf previous payload rule
    let rest := (applyRules previous payload rules).run (r.after t)
    (applyRules previous payload (rule :: rules)).run r =
      (⟨rule.id, t.status⟩ :: rest.1, rest.2) := by
  dsimp only
  unfold applyRules
  rw [List.mapM_cons, StateT.run_bind]
  have hr : (do pure ⟨rule.id, ← applyRule previous payload rule⟩ : RouterM RuleOutcome).run r =
      (⟨rule.id, (r.turnOf previous payload rule).status⟩,
        r.after (r.turnOf previous payload rule)) := by
    rw [StateT.run_bind, run_applyRule]
    rfl
  rw [hr]
  rfl

/-- What the turn of each rule preserves holds after all of them. -/
theorem preserved_turns {P : Router → Prop} {previous : Option String} {payload : String}
    {rules : List Rule}
    (hstep : ∀ rule ∈ rules, ∀ r : Router, P r → P (r.after (r.turnOf previous payload rule))) :
    ∀ {r : Router}, P r → P ((applyRules previous payload rules).run r).2 := by
  induction rules with
  | nil => exact fun h => h
  | cons rule rules ih =>
    intro r h
    obtain ⟨hfirst, hrest⟩ := List.forall_mem_cons.mp hstep
    rw [run_applyRules_cons]
    exact ih hrest (hfirst r h)

def prepare (e : Entry) : RouterM Entry := do
  let e ← track e
  let _ ← (handleReserved e).run
  pure e

theorem Inherited.prepare {P : {α : Type} → RouterM α → Prop} (h : Inherited P) (e : Entry) :
    P (Router.prepare e) :=
  h.bind_ok (h.track e) fun e => h.bind_ok (h.handleReserved e) fun _ => h.pure_ok e

/-- The rules that have a turn. -/
def heard (r : Router) (e : Entry) : List Rule :=
  if .loadRules ∈ r.store.outages then [] else r.store.rulesFor e.project e.topic true

theorem run_rulesOf (e : Entry) (r : Router) : (rulesOf e).run r = (r.heard e, r) := by
  unfold rulesOf heard
  rw [StateT.run_bind, run_onStore, Store.run_loadRules]
  by_cases h : .loadRules ∈ r.store.outages
  · simp only [h, if_true]
    rfl
  · simp only [h, if_false]
    rfl

/-- A message when the rules are to have their turns, and what its topic held until then. -/
structure Arrival where
  entry : Entry
  router : Router
  previous : Option String

def arrival (r : Router) (e : Entry) : Arrival :=
  let p := (prepare e).run r
  ⟨p.1, p.2, p.2.cache.get? p.1.topic⟩

namespace Arrival

def rules (a : Arrival) : List Rule := a.router.heard a.entry

def turns (a : Arrival) : List RuleOutcome × Router :=
  (applyRules a.previous a.entry.payload a.rules).run a.router

def aftermath (a : Arrival) : Router :=
  { a.turns.2 with cache := (a.turns.2.cache.put a.entry).1 }

def withRules (a : Arrival) (rules : Table Rule) : Arrival :=
  { a with router := a.router.withRules rules }

end Arrival

@[simp] theorem aftermath_outbound (a : Arrival) : a.aftermath.outbound = a.turns.2.outbound := rfl

@[simp] theorem aftermath_store (a : Arrival) : a.aftermath.store = a.turns.2.store := rfl

/-- The rules have their turns, and then the message is remembered. -/
def conclude (e : Entry) : RouterM MessageOutcome := do
  let previous := (← get).cache.get? e.topic
  let rules ← rulesOf e
  let outcomes ← applyRules previous e.payload rules
  remember e
  pure (.routed e outcomes)

theorem run_conclude (e : Entry) (r : Router) :
    let a : Arrival := ⟨e, r, r.cache.get? e.topic⟩
    (conclude e).run r = (.routed a.entry a.turns.1, a.aftermath) := by
  change (rulesOf e >>= fun rules => (do
    let outcomes ← applyRules (r.cache.get? e.topic) e.payload rules
    remember e
    pure (.routed e outcomes) : RouterM MessageOutcome)).run r = _
  rw [StateT.run_bind, run_rulesOf]
  rfl

theorem run_route (e : Entry) (r : Router) :
    let a := r.arrival e
    (route e).run r = (.routed a.entry a.turns.1, a.aftermath) := by
  have h : route e = prepare e >>= conclude := rfl
  rw [h, StateT.run_bind]
  exact run_conclude ((prepare e).run r).1 ((prepare e).run r).2

theorem now_arrival (r : Router) (e : Entry) : (r.arrival e).router.now = r.now :=
  congrArg (fun ms : Nat => Instant.ofMillis ms) (of_outlook (inherited_outlook.prepare e r)).2.2

theorem arrival_withRules (r : Router) (e : Entry) (rules : Table Rule) :
    (r.withRules rules).arrival e = (r.arrival e).withRules rules := by
  unfold arrival
  rw [inherited_blind.prepare e r rules]
  rfl

inductive Destination where
  | control
  | ignored (reason : String)
  | routed (path : TopicPath)

def destination (m : InboundMessage) (namespaceName : String) : Destination :=
  if isLost m.topic then .control
  else match TopicPath.parse m.topic with
    | .error e => .ignored e.message
    | .ok path =>
      if path.namespaceName ≠ namespaceName then
        .ignored (foreignReason path.namespaceName namespaceName)
      else .routed path

theorem run_handle (m : InboundMessage) (r : Router) : (handle m).run r =
    match destination m r.namespaceName with
    | .control => (.control, ((handleLost m.payload).run.run r).2)
    | .ignored reason => (.ignored reason, r)
    | .routed path => (route (Entry.ofMessage path m r.now)).run r := by
  unfold handle destination
  by_cases hl : isLost m.topic = true
  · simp only [hl, if_true]
    rfl
  · simp only [hl, Bool.false_eq_true, if_false]
    cases TopicPath.parse m.topic with
    | error e => rfl
    | ok path =>
      change (if path.namespaceName ≠ r.namespaceName then
          pure (.ignored (foreignReason path.namespaceName r.namespaceName))
        else route (Entry.ofMessage path m r.now) : RouterM MessageOutcome).run r = _
      dsimp only
      by_cases hn : path.namespaceName ≠ r.namespaceName
      · rw [if_pos hn, if_pos hn]
        rfl
      · rw [if_neg hn, if_neg hn]

end Router

end TopicHub
