import TopicHub.Router.Basic

/-!
What a rule makes of a message, and what follows from it. A verdict depends on nothing but the rule, the
message and what the rule can look up; only carrying it out changes the router.
-/

namespace TopicHub

inductive RuleStatus where
  | skipped (reason : String)
  | notMatched
  | published (m : OutboundMessage)
  | armed (m : OutboundMessage)
  | cancelled (m : OutboundMessage)
  | failed (reason : String)
  deriving DecidableEq, Repr

def noDataChange : String := "no data change"

def noTargetPayload : String := "no target payload"

inductive Verdict where
  | unchanged
  | undecided (e : RuleError)
  | mismatch (evaluation : Evaluation)
  | silent (evaluation : Evaluation)
  | unresolved (evaluation : Evaluation) (e : RuleError)
  | send (evaluation : Evaluation) (m : OutboundMessage)

namespace Rule

def target (r : Rule) (namespaceName : String) : String :=
  fullTopic (if r.namespaceName.isEmpty then namespaceName else r.namespaceName) r.project
    r.targetTopic

/-- `previous` is the payload before this one. -/
def judge (r : Rule) (c : Collaborators) (namespaceName : String) (previous : Option String)
    (payload : String) : Verdict :=
  if r.triggerCondition = .fireOnSourcePayloadChanged && previous = some payload then .unchanged
  else match (Expression.evaluate c r.expression payload).result with
    | .error e => .undecided e
    | .ok evaluation =>
      if evaluation.isMatch then
        match (Template.resolve c r.targetPayload payload).result with
        | .error e => .unresolved evaluation e
        | .ok none => .silent evaluation
        | .ok (some text) => .send evaluation (.plain (r.target namespaceName) text)
      else .mismatch evaluation

/-- The evaluation that is recorded for a condition that could not be evaluated. -/
def undecidedEvaluation (r : Rule) (e : RuleError) : Evaluation :=
  .negative (r.expression.getD "" ++ " ➔ " ++ e.message)

end Rule

namespace Router

/-- A rule that cannot be saved is left at that. -/
def saveRule (rule : Rule) : RouterM Unit := do
  let _ ← onStore (Store.saveRule rule)

def trigger (rule : Rule) (m : OutboundMessage) : RouterM (Rule × RuleStatus) := do
  let r ← get
  match r.outbound.schedule m rule.delayMs with
  | .error e => pure (rule, .failed e.message)
  | .ok (outbound, scheduling) =>
    set { r with outbound }
    let triggered := { rule with lastTrigger := some r.now }
    match scheduling with
    | .published => pure (triggered, .published m)
    | .armed => pure (rule, .armed m)
    | .cancelled => pure (triggered, .cancelled m)

def carryOut (rule : Rule) (verdict : Verdict) : RouterM RuleStatus := do
  let (rule, status) ← match verdict with
    | .unchanged => pure (rule.record (.negative noDataChange), RuleStatus.skipped noDataChange)
    | .undecided e => pure (rule.record (rule.undecidedEvaluation e), .failed e.message)
    | .mismatch evaluation => pure (rule.record evaluation, .notMatched)
    | .silent evaluation => pure (rule.record evaluation, .skipped noTargetPayload)
    | .unresolved evaluation e => pure (rule.record evaluation, .failed e.message)
    | .send evaluation m => trigger (rule.record evaluation) m
  saveRule rule
  pure status

def applyRule (previous : Option String) (payload : String) (rule : Rule) : RouterM RuleStatus := do
  let r ← get
  carryOut rule (rule.judge r.collaborators r.namespaceName previous payload)

end Router

end TopicHub
