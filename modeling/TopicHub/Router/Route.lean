import TopicHub.Router.Handlers
import TopicHub.Router.Verdict

/-!
The way of a message through the hub: it updates its known topic, is answered if it is meant for the hub
itself, passes the rules of its topic in their order, and is remembered last. Whatever fails on the way,
the next step follows.
-/

namespace TopicHub

structure RuleOutcome where
  ruleId : String
  status : RuleStatus
  deriving DecidableEq, Repr

inductive MessageOutcome where
  | ignored (reason : String)
  | control
  | routed (entry : Entry) (rules : List RuleOutcome)
  deriving DecidableEq, Repr

namespace Router

def historyOf (e : Entry) : HistoryEntry :=
  { project := e.project, topic := e.topic, payload := some e.payload, received := e.received }

def refreshed (k : KnownTopic) (e : Entry) : KnownTopic :=
  { k with
    lastPayload := some e.payload
    payloadUpdatedAt := some e.received
    retained := some e.retain
    sender := e.sender.or k.sender }

def described (e : Entry) (k : KnownTopic) : Entry :=
  { e with isKnown := true, description := k.description, direction := k.direction }

/-- Updates the known topic of a message, if there is one. -/
def track (e : Entry) : RouterM Entry := do
  match ← onStore (Store.getKnownTopic e.project e.topic) with
  | .error _ | .ok none => pure e
  | .ok (some k) =>
    if k.keepHistory then
      let _ ← onStore (Store.appendHistory (historyOf e))
    let _ ← onStore (Store.saveKnownTopic (refreshed k e))
    pure (described e k)

/-- The enabled rules of a topic; none if they cannot be loaded. -/
def rulesOf (e : Entry) : RouterM (List Rule) := do
  match ← onStore (Store.loadRules e.project e.topic) with
  | .ok rules => pure rules
  | .error _ => pure []

def remember (e : Entry) : RouterM Unit := modify fun r => { r with cache := (r.cache.put e).1 }

def applyRules (previous : Option String) (payload : String) (rules : List Rule) :
    RouterM (List RuleOutcome) :=
  rules.mapM fun rule => do pure ⟨rule.id, ← applyRule previous payload rule⟩

def route (e : Entry) : RouterM MessageOutcome := do
  let e ← track e
  let _ ← (handleReserved e).run
  let previous := (← get).cache.get? e.topic
  let rules ← rulesOf e
  let outcomes ← applyRules previous e.payload rules
  remember e
  pure (.routed e outcomes)

def foreignReason (found own : String) : String :=
  "namespace '" ++ found ++ "' is not '" ++ own ++ "'"

def handle (m : InboundMessage) : RouterM MessageOutcome := do
  if isLost m.topic then
    let _ ← (handleLost m.payload).run
    pure .control
  else match TopicPath.parse m.topic with
    | .error e => pure (.ignored e.message)
    | .ok path =>
      let r ← get
      if path.namespaceName ≠ r.namespaceName then
        pure (.ignored (foreignReason path.namespaceName r.namespaceName))
      else route (Entry.ofMessage path m r.now)

end Router

end TopicHub
