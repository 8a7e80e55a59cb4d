import TopicHub.Instant
import TopicHub.Record
import TopicHub.Topic

/-!
Topics that the hub knows about, with the last message of each, and the history that some of them keep.
-/

namespace TopicHub

open Json

inductive Direction where
  | unknown
  | inbound
  | outbound
  | internal
  deriving DecidableEq, Repr, Inhabited

namespace Direction

def name : Direction → String
  | .unknown => "unknown"
  | .inbound => "inbound"
  | .outbound => "outbound"
  | .internal => "internal"

def ofName? (s : String) : Option Direction :=
  [unknown, inbound, outbound, internal].find? fun d => d.name = s

def ofDocument? {δ : Type} [Document δ] (d : δ) : Option Direction :=
  (Document.choice? d).bind ofName?

end Direction

structure KnownTopic where
  namespaceName : String
  project : String
  topic : String
  description : Option String
  direction : Direction
  keepHistory : Bool
  lastPayload : Option String
  payloadUpdatedAt : Option Instant
  sender : Option String
  retained : Option Bool
  allowEdit : Option Bool
  allowDelete : Option Bool
  parentTopic : Option String
  deriving DecidableEq, Repr, Inhabited

namespace KnownTopic

def bare (project topic : String) : KnownTopic :=
  { namespaceName := "", project, topic, description := none, direction := .unknown,
    keepHistory := false, lastPayload := none, payloadUpdatedAt := none, sender := none,
    retained := none, allowEdit := none, allowDelete := none, parentTopic := none }

def fieldNames : List String :=
  ["namespace_name", "project_name", "topic", "description", "message_direction", "keep_history",
    "last_payload", "payload_updated_at", "sender", "retained", "allow_edit", "allow_delete",
    "parent_topic"]

def ofDocument? {δ : Type} [Document δ] (d : δ) : Option KnownTopic := do
  let s ← Slots.ofDocument? fieldNames d
  let text : δ → Option String := Document.text?
  let bool : δ → Option Bool := Document.bool?
  pure {
    namespaceName := ← s.withDefault? "namespace_name" "" text
    project := ← s.required? "project_name" text
    topic := ← s.required? "topic" text
    description := ← s.optional? "description" text
    direction := ← s.withDefault? "message_direction" .unknown Direction.ofDocument?
    keepHistory := ← s.withDefault? "keep_history" false bool
    lastPayload := ← s.optional? "last_payload" text
    payloadUpdatedAt := ← s.optional? "payload_updated_at" fun d => (text d).bind Instant.read?
    sender := ← s.optional? "sender" text
    retained := ← s.optional? "retained" bool
    allowEdit := ← s.optional? "allow_edit" bool
    allowDelete := ← s.optional? "allow_delete" bool
    parentTopic := ← s.optional? "parent_topic" text }

def toJson (k : KnownTopic) : Value :=
  objectOf [
    ("namespace_name", some (.string k.namespaceName)),
    ("project_name", some (.string k.project)),
    ("topic", some (.string k.topic)),
    ("description", k.description.map .string),
    ("message_direction", some (.string k.direction.name)),
    ("keep_history", some (.bool k.keepHistory)),
    ("last_payload", k.lastPayload.map .string),
    ("payload_updated_at", k.payloadUpdatedAt.map fun t => .string t.text),
    ("sender", k.sender.map .string),
    ("retained", k.retained.map .bool),
    ("allow_edit", k.allowEdit.map .bool),
    ("allow_delete", k.allowDelete.map .bool),
    ("parent_topic", k.parentTopic.map .string)]

def address (k : KnownTopic) : String := fullTopic k.namespaceName k.project k.topic

end KnownTopic

structure HistoryEntry where
  project : String
  topic : String
  payload : Option String
  received : Instant
  deriving DecidableEq, Repr, Inhabited

namespace HistoryEntry

def fieldNames : List String := ["project_name", "topic", "payload", "date_received"]

def ofDocument? {δ : Type} [Document δ] (d : δ) : Option HistoryEntry := do
  let s ← Slots.ofDocument? fieldNames d
  let text : δ → Option String := Document.text?
  pure {
    project := ← s.required? "project_name" text
    topic := ← s.required? "topic" text
    payload := ← s.optional? "payload" text
    received := ← s.required? "date_received" fun d => (text d).bind Instant.read? }

def toJson (e : HistoryEntry) : Value :=
  .object [
    ("project_name", .string e.project),
    ("topic", .string e.topic),
    ("payload", ofOption e.payload),
    ("date_received", .string e.received.text)]

end HistoryEntry

end TopicHub
