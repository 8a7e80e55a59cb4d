import TopicHub.Instant
import TopicHub.Record
import TopicHub.Scalar
import TopicHub.Topic

/-!
Rules: a condition on the messages of a source topic and a message to a target topic that follows from
it.
-/

namespace TopicHub

open Json Number

inductive TriggerCondition where
  | always
  /-- Only when the payload differs from the one before. -/
  | fireOnSourcePayloadChanged
  deriving DecidableEq, Repr, Inhabited

namespace TriggerCondition

def name : TriggerCondition → String
  | .always => "always"
  | .fireOnSourcePayloadChanged => "fire_on_source_payload_changed"

def ofName? (s : String) : Option TriggerCondition :=
  if s = "always" then some .always
  else if s = "fire_on_source_payload_changed" then some .fireOnSourcePayloadChanged
  else none

def ofDocument? {δ : Type} [Document δ] (d : δ) : Option TriggerCondition :=
  (Document.choice? d).bind ofName?

end TriggerCondition

structure Rule where
  id : String
  namespaceName : String
  project : String
  sourceTopic : String
  targetTopic : String
  /-- Without a condition every message matches. -/
  expression : Option String
  targetPayload : Option String
  triggerCondition : TriggerCondition
  priority : Int
  enabled : Bool
  delayMs : Nat
  lastTrigger : Option Instant
  evaluationResult : Bool
  evaluationProtocol : Option String
  deriving DecidableEq, Repr, Inhabited

def defaultPriority : Int := 5

namespace Rule

def fieldNames : List String :=
  ["id", "namespace_name", "project_name", "source_topic", "target_topic", "expression",
    "target_payload", "trigger_condition", "priority", "enabled", "delay_ms",
    "last_trigger_date_time", "expression_evaluation_result", "expression_evaluation_protocol"]

def ofDocument? {δ : Type} [Document δ] (d : δ) : Option Rule := do
  let s ← Slots.ofDocument? fieldNames d
  let text : δ → Option String := Document.text?
  let bool : δ → Option Bool := Document.bool?
  pure {
    id := ← s.required? "id" text
    namespaceName := ← s.withDefault? "namespace_name" "" text
    project := ← s.required? "project_name" text
    sourceTopic := ← s.required? "source_topic" text
    targetTopic := ← s.required? "target_topic" text
    expression := ← s.optional? "expression" text
    targetPayload := ← s.optional? "target_payload" text
    triggerCondition := ← s.withDefault? "trigger_condition" .always TriggerCondition.ofDocument?
    priority := ← s.withDefault? "priority" defaultPriority
      (Document.integerIn? (-(span31 : Int)) (span31 - 1))
    enabled := ← s.withDefault? "enabled" true bool
    delayMs := ← s.withDefault? "delay_ms" 0 (Document.natBelow? span64)
    lastTrigger := ← s.optional? "last_trigger_date_time" fun d => (text d).bind Instant.read?
    evaluationResult := ← s.withDefault? "expression_evaluation_result" false bool
    evaluationProtocol := ← s.optional? "expression_evaluation_protocol" text }

def toJson (r : Rule) : Value :=
  objectOf [
    ("id", some (.string r.id)),
    ("namespace_name", some (.string r.namespaceName)),
    ("project_name", some (.string r.project)),
    ("source_topic", some (.string r.sourceTopic)),
    ("target_topic", some (.string r.targetTopic)),
    ("expression", r.expression.map .string),
    ("target_payload", r.targetPayload.map .string),
    ("trigger_condition", some (.string r.triggerCondition.name)),
    ("priority", some (int r.priority)),
    ("enabled", some (.bool r.enabled)),
    ("delay_ms", some (int r.delayMs)),
    ("last_trigger_date_time", r.lastTrigger.map fun t => .string t.text),
    ("expression_evaluation_result", some (.bool r.evaluationResult)),
    ("expression_evaluation_protocol", r.evaluationProtocol.map .string)]

/-- The address of the source topic, with all three parts even if they are empty. -/
def sourceAddress (r : Rule) : String :=
  (TopicPath.mk r.namespaceName r.project r.sourceTopic).text

def targetAddress (r : Rule) : String :=
  (TopicPath.mk r.namespaceName r.project r.targetTopic).text

end Rule

structure Evaluation where
  isMatch : Bool
  protocol : String
  scalar : Option Scalar
  deriving Repr, Inhabited

namespace Evaluation

def positive (protocol : String) : Evaluation := ⟨true, protocol, none⟩

def negative (protocol : String) : Evaluation := ⟨false, protocol, none⟩

def ofScalar (expression : String) (value : Scalar) : Evaluation :=
  ⟨value.isTruthy, expression ++ " ➔ " ++ value.display, some value⟩

end Evaluation

def Rule.record (r : Rule) (e : Evaluation) : Rule :=
  { r with evaluationResult := e.isMatch, evaluationProtocol := some e.protocol }

end TopicHub
