import TopicHub.KnownTopic

/-!
Microcontrollers, and the announcements by which they register themselves and their topics. A device
names its fields in Pascal case and gives the direction of a topic as a number or a word.
-/

namespace TopicHub

open Json

structure Device where
  macAddress : String
  ipAddress : Option String
  ipMqttBroker : Option String
  namespaceName : String
  project : String
  boardType : String
  firmwareVersion : Option String
  description : Option String
  online : Option Bool
  bootTime : Option Instant
  knownTopics : List KnownTopic
  deriving DecidableEq, Repr, Inhabited

namespace Device

def bare (macAddress : String) : Device :=
  { macAddress, ipAddress := none, ipMqttBroker := none, namespaceName := "", project := "",
    boardType := "", firmwareVersion := none, description := none, online := none, bootTime := none,
    knownTopics := [] }

def fieldNames : List String :=
  ["mac_address", "ip_address", "ip_mqtt_broker", "namespace_name", "project_name", "board_type",
    "firmware_version", "description", "online", "boot_date_time", "known_topics"]

def ofDocument? {δ : Type} [Document δ] (d : δ) : Option Device := do
  let s ← Slots.ofDocument? fieldNames d
  let text : δ → Option String := Document.text?
  pure {
    macAddress := ← s.required? "mac_address" text
    ipAddress := ← s.optional? "ip_address" text
    ipMqttBroker := ← s.optional? "ip_mqtt_broker" text
    namespaceName := ← s.withDefault? "namespace_name" "" text
    project := ← s.withDefault? "project_name" "" text
    boardType := ← s.withDefault? "board_type" "" text
    firmwareVersion := ← s.optional? "firmware_version" text
    description := ← s.optional? "description" text
    online := ← s.optional? "online" Document.bool?
    bootTime := ← s.optional? "boot_date_time" fun d => (text d).bind Instant.read?
    knownTopics := ← s.withDefault? "known_topics" [] (Document.listOf? KnownTopic.ofDocument?) }

def toJson (m : Device) : Value :=
  objectOf [
    ("mac_address", some (.string m.macAddress)),
    ("ip_address", m.ipAddress.map .string),
    ("ip_mqtt_broker", m.ipMqttBroker.map .string),
    ("namespace_name", some (.string m.namespaceName)),
    ("project_name", some (.string m.project)),
    ("board_type", some (.string m.boardType)),
    ("firmware_version", m.firmwareVersion.map .string),
    ("description", m.description.map .string),
    ("online", m.online.map .bool),
    ("boot_date_time", m.bootTime.map fun t => .string t.text),
    ("known_topics",
      if m.knownTopics.isEmpty then none else some (.array (m.knownTopics.map KnownTopic.toJson)))]

end Device

/-- A direction as devices write it: a number from zero, or a word in any letter case. -/
def Direction.ofWire : Value → Direction
  | .number (.int n) =>
    if n = 0 then .inbound else if n = 1 then .outbound else if n = 2 then .internal else .unknown
  | .string s =>
    let s := s.lowercase
    if s = "inbound" then .inbound
    else if s = "outbound" then .outbound
    else if s = "internal" then .internal
    else .unknown
  | _ => .unknown

/-- A topic as a device announces it. The direction is kept as it was written. -/
structure TopicAnnouncement where
  namespaceName : String
  project : String
  topic : String
  description : Option String
  keepHistory : Bool
  retained : Option Bool
  direction : Value
  deriving Repr, Inhabited

namespace TopicAnnouncement

def fieldNames : List String :=
  ["NamespaceName", "ProjectName", "Topic", "Description", "KeepHistory", "Retained",
    "MessageDirection"]

def ofRaw? (depth : Nat) (d : Raw) : Option TopicAnnouncement := do
  let s ← Slots.ofDocument? fieldNames d
  let text : Raw → Option String := Document.text?
  pure {
    namespaceName := ← s.withDefault? "NamespaceName" "" text
    project := ← s.withDefault? "ProjectName" "" text
    topic := ← s.withDefault? "Topic" "" text
    description := ← s.optional? "Description" text
    keepHistory := ← s.withDefault? "KeepHistory" false Document.bool?
    retained := ← s.optional? "Retained" Document.bool?
    direction := ← s.withDefault? "MessageDirection" .null (Raw.value? (depth - 1)) }

def read? (text : String) : Option TopicAnnouncement := (Raw.read? text).bind (ofRaw? depthLimit)

def toJson (a : TopicAnnouncement) : Value :=
  objectOf [
    ("NamespaceName", some (.string a.namespaceName)),
    ("ProjectName", some (.string a.project)),
    ("Topic", some (.string a.topic)),
    ("Description", a.description.map .string),
    ("KeepHistory", some (.bool a.keepHistory)),
    ("Retained", a.retained.map .bool),
    ("MessageDirection", some a.direction)]

def toKnownTopic (a : TopicAnnouncement) : KnownTopic :=
  { KnownTopic.bare a.project a.topic with
    namespaceName := a.namespaceName
    description := a.description
    direction := Direction.ofWire a.direction
    keepHistory := a.keepHistory
    retained := a.retained }

end TopicAnnouncement

structure DeviceAnnouncement where
  macAddress : String
  ipAddress : Option String
  ipMqttBroker : Option String
  namespaceName : String
  project : String
  boardType : String
  firmwareVersion : Option String
  description : Option String
  topics : Option (List TopicAnnouncement)
  deriving Repr, Inhabited

namespace DeviceAnnouncement

def fieldNames : List String :=
  ["MacAddress", "IpAddress", "IpMqttBroker", "NamespaceName", "ProjectName", "BoardType",
    "FirmwareVersion", "Description", "KnownTopics"]

def ofRaw? (depth : Nat) (d : Raw) : Option DeviceAnnouncement := do
  let s ← Slots.ofDocument? fieldNames d
  let text : Raw → Option String := Document.text?
  pure {
    macAddress := ← s.withDefault? "MacAddress" "" text
    ipAddress := ← s.optional? "IpAddress" text
    ipMqttBroker := ← s.optional? "IpMqttBroker" text
    namespaceName := ← s.withDefault? "NamespaceName" "" text
    project := ← s.withDefault? "ProjectName" "" text
    boardType := ← s.withDefault? "BoardType" "" text
    firmwareVersion := ← s.optional? "FirmwareVersion" text
    description := ← s.optional? "Description" text
    topics := ← s.optional? "KnownTopics"
      (Document.listOf? (TopicAnnouncement.ofRaw? (depth - 2))) }

def read? (text : String) : Option DeviceAnnouncement := (Raw.read? text).bind (ofRaw? depthLimit)

def toJson (a : DeviceAnnouncement) : Value :=
  objectOf [
    ("MacAddress", some (.string a.macAddress)),
    ("IpAddress", a.ipAddress.map .string),
    ("IpMqttBroker", a.ipMqttBroker.map .string),
    ("NamespaceName", some (.string a.namespaceName)),
    ("ProjectName", some (.string a.project)),
    ("BoardType", some (.string a.boardType)),
    ("FirmwareVersion", a.firmwareVersion.map .string),
    ("Description", a.description.map .string),
    ("KnownTopics", a.topics.map fun ts => .array (ts.map TopicAnnouncement.toJson))]

def ofDevice (m : Device) : DeviceAnnouncement :=
  { macAddress := m.macAddress, ipAddress := m.ipAddress, ipMqttBroker := m.ipMqttBroker,
    namespaceName := m.namespaceName, project := m.project, boardType := m.boardType,
    firmwareVersion := m.firmwareVersion, description := m.description, topics := none }

def toDevice (a : DeviceAnnouncement) : Device :=
  { Device.bare a.macAddress with
    ipAddress := a.ipAddress
    ipMqttBroker := a.ipMqttBroker
    namespaceName := a.namespaceName
    project := a.project
    boardType := a.boardType
    firmwareVersion := a.firmwareVersion
    description := a.description }

def toTopics (a : DeviceAnnouncement) : List KnownTopic :=
  (a.topics.getD []).map TopicAnnouncement.toKnownTopic

def ofHeartbeat? (text : String) : Option DeviceAnnouncement := do
  let d ← Raw.read? text
  let s ← Slots.ofDocument? ["Microcontroller"] d
  s.required? "Microcontroller" (ofRaw? (depthLimit - 1))

end DeviceAnnouncement

end TopicHub
