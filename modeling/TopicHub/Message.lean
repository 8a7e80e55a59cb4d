import TopicHub.KnownTopic

/-!
Messages: as they arrive, as they are published, and as they are kept in memory.
-/

namespace TopicHub

open Json

structure InboundMessage where
  topic : String
  payload : String
  qos : Nat
  retain : Bool
  deriving DecidableEq, Repr, Inhabited

structure OutboundMessage where
  topic : String
  payload : String
  qos : Nat
  retain : Bool
  deriving DecidableEq, Repr, Inhabited

namespace OutboundMessage

def nullPayload : String := "NULL"

/-- A message that the broker does not keep. Brokers drop such messages when they are empty, so the
payload never is. -/
def plain (topic payload : String) : OutboundMessage :=
  ⟨topic, if payload.isEmpty then nullPayload else payload, 0, false⟩

/-- A message that the broker keeps, with its payload as it is. -/
def retained (topic payload : String) : OutboundMessage := ⟨topic, payload, 0, true⟩

end OutboundMessage

inductive Qos where
  | atMostOnce
  | atLeastOnce
  | exactlyOnce
  deriving DecidableEq, Repr

namespace Qos

/-- Levels beyond the second count as the lowest. -/
def ofLevel (n : Nat) : Qos :=
  if n = 1 then .atLeastOnce else if n = 2 then .exactlyOnce else .atMostOnce

def level : Qos → Nat
  | .atMostOnce => 0
  | .atLeastOnce => 1
  | .exactlyOnce => 2

def name : Qos → String
  | .atMostOnce => "AtMostOnce"
  | .atLeastOnce => "AtLeastOnce"
  | .exactlyOnce => "ExactlyOnce"

end Qos

structure Entry where
  namespaceName : String
  project : String
  topic : String
  payload : String
  previousPayload : Option String
  received : Instant
  /-- Milliseconds since the message before this one on the same topic. -/
  timeDiffMs : Option Int
  qos : Nat
  retain : Bool
  isKnown : Bool
  sender : Option String
  description : Option String
  direction : Direction
  deriving DecidableEq, Repr, Inhabited

namespace Entry

def ofMessage (path : TopicPath) (message : InboundMessage) (now : Instant) : Entry :=
  { namespaceName := path.namespaceName, project := path.project, topic := path.topic,
    payload := message.payload, previousPayload := none, received := now, timeDiffMs := none,
    qos := message.qos, retain := message.retain, isKnown := false, sender := none,
    description := none, direction := .unknown }

def address (e : Entry) : String := fullTopic e.namespaceName e.project e.topic

end Entry

end TopicHub
