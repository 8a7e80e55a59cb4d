import TopicHub.Configuration.FilePath
import TopicHub.KnownTopic
import TopicHub.Rule

/-!
The settings of a hub: what a configuration says, with defaults for what it leaves out.
-/

namespace TopicHub

open Json (Value objectOf)
open Number (span16 span31 span64)

structure BrokerSettings where
  host : String
  port : Nat
  clientId : String
  username : Option String
  password : Option String
  keepAliveSecs : Nat
  deriving DecidableEq, Repr

structure CacheSettings where
  capacity : Nat
  deriving DecidableEq, Repr

structure StorageSettings where
  path : FilePath
  historyPerTopic : Nat
  deriving DecidableEq, Repr

structure ScriptSettings where
  name : String
  source : String
  deriving DecidableEq, Repr

structure TopicSettings where
  project : String
  topic : String
  description : Option String
  direction : Direction
  keepHistory : Bool
  deriving DecidableEq, Repr

structure RuleSettings where
  id : Option String
  project : String
  sourceTopic : String
  targetTopic : String
  expression : Option String
  targetPayload : Option String
  triggerCondition : TriggerCondition
  priority : Int
  enabled : Bool
  delayMs : Nat
  deriving DecidableEq, Repr

structure Settings where
  namespaceName : String
  projects : List String
  broker : BrokerSettings
  cache : CacheSettings
  storage : StorageSettings
  scripts : List ScriptSettings
  knownTopics : List TopicSettings
  rules : List RuleSettings
  deriving DecidableEq, Repr

namespace BrokerSettings

def standard : BrokerSettings := ⟨"localhost", 1883, "iot-hub", none, none, 30⟩

def fieldNames : List String :=
  ["host", "port", "client_id", "username", "password", "keep_alive_secs"]

def ofDocument? {δ : Type} [Document δ] (d : δ) : Option BrokerSettings := do
  let s ← Slots.ofDocument? fieldNames d
  let text : δ → Option String := Document.text?
  pure {
    host := ← s.withDefault? "host" standard.host text
    port := ← s.withDefault? "port" standard.port (Document.natBelow? span16)
    clientId := ← s.withDefault? "client_id" standard.clientId text
    username := ← s.optional? "username" text
    password := ← s.optional? "password" text
    keepAliveSecs :=
      ← s.withDefault? "keep_alive_secs" standard.keepAliveSecs (Document.natBelow? span64) }

def toJson (b : BrokerSettings) : Value :=
  .object [
    ("host", .string b.host),
    ("port", Json.int b.port),
    ("client_id", .string b.clientId),
    ("username", Json.ofOption b.username),
    ("password", Json.ofOption b.password),
    ("keep_alive_secs", Json.int b.keepAliveSecs)]

end BrokerSettings

namespace CacheSettings

def standard : CacheSettings := ⟨200⟩

def ofDocument? {δ : Type} [Document δ] (d : δ) : Option CacheSettings := do
  let s ← Slots.ofDocument? ["capacity"] d
  return ⟨← s.withDefault? "capacity" standard.capacity (Document.natBelow? span64)⟩

def toJson (c : CacheSettings) : Value := .object [("capacity", Json.int c.capacity)]

end CacheSettings

namespace StorageSettings

def standard : StorageSettings := ⟨.ofText ".storage", 1000⟩

def ofDocument? {δ : Type} [Document δ] (d : δ) : Option StorageSettings := do
  let s ← Slots.ofDocument? ["path", "history_per_topic"] d
  let path (d : δ) : Option FilePath := (Document.text? d).map .ofText
  pure {
    path := ← s.withDefault? "path" standard.path path
    historyPerTopic :=
      ← s.withDefault? "history_per_topic" standard.historyPerTopic
        (Document.natBelow? span64) }

def toJson (s : StorageSettings) : Value :=
  .object [("path", .string s.path.text), ("history_per_topic", Json.int s.historyPerTopic)]

end StorageSettings

namespace ScriptSettings

def ofDocument? {δ : Type} [Document δ] (d : δ) : Option ScriptSettings := do
  let s ← Slots.ofDocument? ["name", "source"] d
  let text : δ → Option String := Document.text?
  return ⟨← s.required? "name" text, ← s.required? "source" text⟩

def toJson (s : ScriptSettings) : Value :=
  .object [("name", .string s.name), ("source", .string s.source)]

end ScriptSettings

namespace TopicSettings

def fieldNames : List String := ["project", "topic", "description", "direction", "keep_history"]

def ofDocument? {δ : Type} [Document δ] (d : δ) : Option TopicSettings := do
  let s ← Slots.ofDocument? fieldNames d
  let text : δ → Option String := Document.text?
  pure {
    project := ← s.required? "project" text
    topic := ← s.required? "topic" text
    description := ← s.optional? "description" text
    direction := ← s.withDefault? "direction" .unknown Direction.ofDocument?
    keepHistory := ← s.withDefault? "keep_history" false Document.bool? }

def toJson (t : TopicSettings) : Value :=
  .object [
    ("project", .string t.project),
    ("topic", .string t.topic),
    ("description", Json.ofOption t.description),
    ("direction", .string t.direction.name),
    ("keep_history", .bool t.keepHistory)]

end TopicSettings

namespace RuleSettings

def fieldNames : List String :=
  ["id", "project", "source_topic", "target_topic", "expression", "target_payload",
    "trigger_condition", "priority", "enabled", "delay_ms"]

def ofDocument? {δ : Type} [Document δ] (d : δ) : Option RuleSettings := do
  let s ← Slots.ofDocument? fieldNames d
  let text : δ → Option String := Document.text?
  pure {
    id := ← s.optional? "id" text
    project := ← s.required? "project" text
    sourceTopic := ← s.required? "source_topic" text
    targetTopic := ← s.required? "target_topic" text
    expression := ← s.optional? "expression" text
    targetPayload := ← s.optional? "target_payload" text
    triggerCondition := ← s.withDefault? "trigger_condition" .always TriggerCondition.ofDocument?
    priority := ← s.withDefault? "priority" defaultPriority
      (Document.integerIn? (-(span31 : Int)) (span31 - 1))
    enabled := ← s.withDefault? "enabled" true Document.bool?
    delayMs := ← s.withDefault? "delay_ms" 0 (Document.natBelow? span64) }

def toJson (r : RuleSettings) : Value :=
  .object [
    ("id", Json.ofOption r.id),
    ("project", .string r.project),
    ("source_topic", .string r.sourceTopic),
    ("target_topic", .string r.targetTopic),
    ("expression", Json.ofOption r.expression),
    ("target_payload", Json.ofOption r.targetPayload),
    ("trigger_condition", .string r.triggerCondition.name),
    ("priority", Json.int r.priority),
    ("enabled", .bool r.enabled),
    ("delay_ms", Json.int r.delayMs)]

end RuleSettings

namespace Settings

def standard : Settings :=
  { namespaceName := "iotzoo", projects := [], broker := .standard, cache := .standard,
    storage := .standard, scripts := [], knownTopics := [], rules := [] }

def fieldNames : List String :=
  ["namespace", "projects", "broker", "cache", "storage", "scripts", "known_topics", "rules"]

def ofDocument? {δ : Type} [Document δ] (d : δ) : Option Settings := do
  let s ← Slots.ofDocument? fieldNames d
  pure {
    namespaceName := ← s.withDefault? "namespace" standard.namespaceName Document.text?
    projects := ← s.withDefault? "projects" [] (Document.listOf? Document.text?)
    broker := ← s.withDefault? "broker" .standard BrokerSettings.ofDocument?
    cache := ← s.withDefault? "cache" .standard CacheSettings.ofDocument?
    storage := ← s.withDefault? "storage" .standard StorageSettings.ofDocument?
    scripts := ← s.withDefault? "scripts" [] (Document.listOf? ScriptSettings.ofDocument?)
    knownTopics := ← s.withDefault? "known_topics" [] (Document.listOf? TopicSettings.ofDocument?)
    rules := ← s.withDefault? "rules" [] (Document.listOf? RuleSettings.ofDocument?) }

def toJson (s : Settings) : Value :=
  .object [
    ("namespace", .string s.namespaceName),
    ("projects", .array (s.projects.map .string)),
    ("broker", s.broker.toJson),
    ("cache", s.cache.toJson),
    ("storage", s.storage.toJson),
    ("scripts", .array (s.scripts.map ScriptSettings.toJson)),
    ("known_topics", .array (s.knownTopics.map TopicSettings.toJson)),
    ("rules", .array (s.rules.map RuleSettings.toJson))]

end Settings

end TopicHub
