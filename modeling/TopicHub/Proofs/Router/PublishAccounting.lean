import TopicHub.Proofs.Router.Turn

/-!
Every armed message is accounted for. Messages arrive and time passes in any order; rules of one
message or of several may aim at the same topic and payload, with delays and without, and take
each other's timers away. The histories are ghost observations. A pair is conserved: whatever was
armed for it has been published after its delay, was cancelled, or is pending still, and this
holds after each rule's turn.
-/

namespace TopicHub

def MessageOutcome.rules : MessageOutcome → List RuleOutcome
  | .routed _ rules => rules
  | _ => []

namespace RuleStatus

def published? : RuleStatus → Option OutboundMessage
  | .published m => some m
  | _ => none

def arms (pair : String × String) : RuleStatus → Bool
  | .armed m => m.key = pair
  | _ => false

def cancels (pair : String × String) : RuleStatus → Bool
  | .cancelled m => m.key = pair
  | _ => false

theorem of_message?_none {s : RuleStatus} (h : s.message? = none) :
    s.published? = none ∧ ∀ pair, s.arms pair = false ∧ s.cancels pair = false := by
  cases s with
  | published m => cases h
  | armed m => cases h
  | cancelled m => cases h
  | _ => exact ⟨rfl, fun _ => ⟨rfl, rfl⟩⟩

end RuleStatus

namespace PublishAccounting

structure State where
  router : Router
  outcomes : List RuleOutcome
  delayed : List Sent

/-- Any router, with nothing pending yet and with a connection that accepts everything. -/
def initial (r : Router) : State :=
  ⟨{ r with outbound := { r.outbound.cancelAll with connection := .accepting } }, [], []⟩

inductive Event where
  | arrive (m : InboundMessage)
  | elapse (ms : Nat)
  deriving DecidableEq, Repr

def next (s : State) : Event → State
  | .arrive m =>
    let a := (Router.handle m).run s.router
    { s with router := a.2, outcomes := s.outcomes ++ a.1.rules }
  | .elapse ms =>
    let outbound := s.router.outbound.advance ms
    { s with
      router := { s.router with outbound }
      delayed := s.delayed ++ outbound.sent.drop s.router.outbound.sent.length }

abbrev State.timers (s : State) : Timers := s.router.outbound.timers

def armedFor (pair : String × String) (outcomes : List RuleOutcome) : Nat :=
  outcomes.countP (·.status.arms pair)

def cancelledFor (pair : String × String) (outcomes : List RuleOutcome) : Nat :=
  outcomes.countP (·.status.cancels pair)

def sentFor (pair : String × String) (messages : List Sent) : Nat :=
  messages.countP (·.message.key = pair)

/-- The messages that were published at once, in the order of the outcomes. -/
def published (outcomes : List RuleOutcome) : List OutboundMessage :=
  outcomes.filterMap (·.status.published?)

structure Invariant (s : State) : Prop where
  accepting : s.router.outbound.connection = .accepting
  one_per_pair : s.timers.OnePerPair
  conserved : ∀ pair,
    sentFor pair s.delayed + cancelledFor pair s.outcomes + s.timers.load pair =
      armedFor pair s.outcomes

theorem initial_invariant (r : Router) : Invariant (initial r) where
  accepting := rfl
  one_per_pair := List.nodup_nil
  conserved _ := rfl

/-- What outcomes say about the way out. -/
structure Accounted (o u : Outbound) (outcomes : List RuleOutcome) : Prop where
  clock : u.clock = o.clock
  connection : u.connection = o.connection
  one_per_pair : u.timers.OnePerPair
  sent : u.sent = o.sent ++ (published outcomes).map fun m => ⟨o.clock, m⟩
  conserved : ∀ pair,
    cancelledFor pair outcomes + u.timers.load pair = o.timers.load pair + armedFor pair outcomes

theorem accounted_nil {o : Outbound} (h : o.timers.OnePerPair) : Accounted o o [] where
  clock := rfl
  connection := rfl
  one_per_pair := h
  sent := by simp [published]
  conserved := by simp [cancelledFor, armedFor]

theorem Accounted.append {o u v : Outbound} {as bs : List RuleOutcome} (h : Accounted o u as)
    (k : Accounted u v bs) : Accounted o v (as ++ bs) where
  clock := k.clock.trans h.clock
  connection := k.connection.trans h.connection
  one_per_pair := k.one_per_pair
  sent := by
    rw [k.sent, h.sent, h.clock]
    simp [published]
  conserved pair := by
    have ha := h.conserved pair
    have hb := k.conserved pair
    simp only [cancelledFor, armedFor, List.countP_append] at *
    omega

theorem accounted_turn {o : Outbound} (h : o.timers.OnePerPair) (rule : Rule) (v : Verdict) :
    Accounted o (Router.turn o rule v).outbound [⟨rule.id, (Router.turn o rule v).status⟩] := by
  rcases Router.turn_cases o rule v with
    ⟨hs, hu⟩ | ⟨m, hs, hu⟩ | ⟨m, due, hs, hm, hu⟩ | ⟨m, hs, hm, hu⟩
  · obtain ⟨hp, hc⟩ := RuleStatus.of_message?_none hs
    rw [hu]
    refine ⟨rfl, rfl, h, by simp [published, hp], ?_⟩
    intro pair
    simp [cancelledFor, armedFor, hc pair]
  · rw [hs, hu]
    exact ⟨rfl, rfl, h, rfl, fun _ => (Nat.zero_add _).trans (Nat.add_zero _).symm⟩
  · rw [hs, hu]
    refine ⟨rfl, rfl, Timers.onePerPair_arm h hm due, (List.append_nil _).symm, ?_⟩
    intro pair
    simp [cancelledFor, armedFor, RuleStatus.cancels, RuleStatus.arms, Timers.load_arm]
  · rw [hs, hu]
    refine ⟨rfl, rfl, Timers.onePerPair_cancel h m, (List.append_nil _).symm, ?_⟩
    intro pair
    have hl := Timers.load_cancel h hm pair
    rw [← hl]
    simp [cancelledFor, armedFor, RuleStatus.cancels, RuleStatus.arms, Nat.add_comm]

theorem accounted_rules (previous : Option String) (payload : String) (rules : List Rule) :
    ∀ {r : Router}, r.outbound.timers.OnePerPair →
      let a := (Router.applyRules previous payload rules).run r
      Accounted r.outbound a.2.outbound a.1 := by
  induction rules with
  | nil => exact accounted_nil
  | cons rule rules ih =>
    intro r h
    have ht := accounted_turn h rule (r.verdict previous payload rule)
    rw [Router.run_applyRules_cons]
    exact ht.append (ih (r := r.after (r.turnOf previous payload rule)) ht.one_per_pair)

theorem heard_empty (r : Router) (e : Entry) : (r.withRules .empty).heard e = [] := by
  unfold Router.heard
  split
  · rfl
  · exact List.mergeSort_nil

theorem one_per_pair_of_outlook {r u : Router} (h : r.outbound.timers.OnePerPair)
    (ho : u.outlook = r.outlook) : u.outbound.timers.OnePerPair := by
  rw [(Router.of_outlook ho).1]
  exact h

theorem accounted_route {r : Router} (h : r.outbound.timers.OnePerPair) (e : Entry) :
    let a := (Router.route e).run r
    let b := (Router.route e).run (r.withRules .empty)
    b.2.outlook = r.outlook ∧ Accounted b.2.outbound a.2.outbound a.1.rules := by
  have ho : (r.arrival e).router.outlook = r.outlook := Router.inherited_outlook.prepare e r
  have hn : ((r.arrival e).withRules .empty).rules = [] := heard_empty _ _
  have hb : ((r.arrival e).withRules .empty).aftermath.outbound = (r.arrival e).router.outbound := by
    unfold Router.Arrival.aftermath Router.Arrival.turns
    rw [hn]
    rfl
  dsimp only
  rw [Router.run_route, Router.run_route, Router.arrival_withRules]
  refine ⟨?_, ?_⟩
  · unfold Router.outlook at *
    rw [hb]
    exact ho
  · rw [hb, Router.aftermath_outbound]
    let a := r.arrival e
    exact accounted_rules a.previous a.entry.payload a.rules (one_per_pair_of_outlook h ho)

/-- A message, compared with the same message in a hub that has no rules. -/
theorem accounted_message {r : Router} (h : r.outbound.timers.OnePerPair) (m : InboundMessage) :
    let a := (Router.handle m).run r
    let b := (Router.handle m).run (r.withRules .empty)
    b.2.outlook = r.outlook ∧ Accounted b.2.outbound a.2.outbound a.1.rules := by
  have hn : (r.withRules .empty).namespaceName = r.namespaceName := rfl
  dsimp only
  rw [Router.run_handle, Router.run_handle, hn]
  cases Router.destination m r.namespaceName with
  | control =>
    have ho := Router.inherited_outlook.handleLost m.payload r
    have hb := Router.inherited_blind.handleLost m.payload r .empty
    dsimp only
    rw [hb]
    exact ⟨ho, accounted_nil (one_per_pair_of_outlook h ho)⟩
  | ignored reason => exact ⟨rfl, accounted_nil h⟩
  | routed path => exact accounted_route h _

theorem arrive {s : State} (h : Invariant s) (m : InboundMessage) :
    Invariant (next s (.arrive m)) := by
  obtain ⟨ho, ha⟩ := accounted_message h.one_per_pair m
  obtain ⟨ht, hc, -⟩ := Router.of_outlook ho
  refine ⟨ha.connection.trans (hc.trans h.accepting), ha.one_per_pair, ?_⟩
  intro pair
  have hs := h.conserved pair
  have hp := ha.conserved pair
  rw [ht] at hp
  simp only [next, State.timers, cancelledFor, armedFor, List.countP_append] at *
  omega

theorem elapse {s : State} (h : Invariant s) (ms : Nat) : Invariant (next s (.elapse ms)) := by
  obtain ⟨hc, hs⟩ := Outbound.advance_sent h.one_per_pair h.accepting ms
  refine ⟨hc, (Outbound.advance_pending h.one_per_pair ms).1, ?_⟩
  intro pair
  have hl := Outbound.advance_load h.one_per_pair ms pair
  have hp := h.conserved pair
  have hd : sentFor pair ((s.timers.dueBy (s.router.outbound.clock + ms)).map fun p =>
      ⟨p.due, p.message⟩) = (s.timers.dueBy (s.router.outbound.clock + ms)).countP
        fun p => p.message.key = pair :=
    List.countP_map
  simp only [next, State.timers, hs, List.drop_left, sentFor, List.countP_append] at *
  omega

theorem step_preserves_invariant {s : State} (h : Invariant s) (e : Event) :
    Invariant (next s e) := by
  cases e with
  | arrive m => exact arrive h m
  | elapse ms => exact elapse h ms

theorem run_invariant {s : State} (h : Invariant s) (events : List Event) :
    Invariant (events.foldl next s) := by
  induction events generalizing s with
  | nil => exact h
  | cons e events ih => exact ih (step_preserves_invariant h e)

/-- Over whole runs the armed messages of a pair are those that were published late, cancelled, or
are pending now; and what rules publish while a message is handled, beside what a hub without
rules publishes, is what they report as published, in the order of the report. -/
theorem publishes_conserved (r : Router) (events : List Event) :
    let s := events.foldl next (initial r)
    (∀ pair, sentFor pair s.delayed + cancelledFor pair s.outcomes +
        (if s.timers.Pending pair then 1 else 0) = armedFor pair s.outcomes) ∧
    ∀ m, let a := (Router.handle m).run s.router
      let bare := (Router.handle m).run (s.router.withRules .empty)
      a.2.outbound.sent = bare.2.outbound.sent ++
        (published a.1.rules).map fun p => ⟨s.router.outbound.clock, p⟩ := by
  intro s
  have h : Invariant s := run_invariant (initial_invariant r) events
  constructor
  · intro pair
    rw [← Timers.load_eq h.one_per_pair]
    exact h.conserved pair
  · intro m a bare
    obtain ⟨ho, ha⟩ := accounted_message h.one_per_pair m
    rw [← (Router.of_outlook ho).2.2]
    exact ha.sent

end PublishAccounting

end TopicHub
