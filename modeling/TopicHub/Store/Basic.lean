import TopicHub.Device
import TopicHub.Rule
import TopicHub.Store.Disk

/-!
The records of the hub: rules by id, known topics and their histories by project and topic, devices by
hardware address. Operations that fail keep what they did before they failed.
-/

namespace TopicHub

inductive StoreError where
  | invalid (entity reason : String)
  | versionMismatch (file : String) (expected found : Nat)
  | unreadable
  | notWritten
  deriving DecidableEq, Repr

def StoreError.message : StoreError → String
  | .invalid entity reason => "invalid " ++ entity ++ ": " ++ reason
  | .versionMismatch file expected found =>
    "Version mismatch for " ++ file ++ ": expected " ++ toString expected ++ ", found " ++
      toString found
  | .unreadable => "<json>"
  | .notWritten => "<io>"

inductive StoreAccess where
  | loadRules
  | saveRule
  | findKnownTopic
  | saveKnownTopic
  | appendHistory
  | findDevice
  | saveDevice
  deriving DecidableEq, Repr

def StoreAccess.name : StoreAccess → String
  | .loadRules => "rules_load"
  | .saveRule => "rules_save"
  | .findKnownTopic => "known_get"
  | .saveKnownTopic => "known_save"
  | .appendHistory => "history"
  | .findDevice => "mc_get"
  | .saveDevice => "mc_save"

structure Store where
  rules : Table Rule
  /-- By project and topic, joined to one key. -/
  knownTopics : Table KnownTopic
  /-- From the oldest to the newest payload, by the same keys. -/
  histories : Table (List HistoryEntry)
  historyLimit : Nat
  historyChanged : Bool
  devices : Table Device
  disk : Disk
  persistent : Bool
  outages : List StoreAccess

abbrev StoreM := ExceptT StoreError (StateM Store)

namespace Store

def defaultHistoryLimit : Nat := 1000

def inMemory (disk : Disk) : Store :=
  { rules := .empty, knownTopics := .empty, histories := .empty,
    historyLimit := defaultHistoryLimit, historyChanged := false, devices := .empty, disk,
    persistent := false, outages := [] }

/-- Records that are kept on the disk; none of them is loaded yet. -/
def onDisk (disk : Disk) (historyLimit : Nat) : Store :=
  { inMemory disk with historyLimit := max historyLimit 1, persistent := true }

/-- The key of a topic. Different topics share a key if a slash is all that sets them apart. -/
def topicKey (project topic : String) : String := project ++ "/" ++ topic

def ensure (a : StoreAccess) : StoreM Unit := do
  if a ∈ (← get).outages then throw (.invalid a.name "unavailable")

def insertRule (s : Store) (r : Rule) : Store := { s with rules := s.rules.insert r.id r }

def removeRule (s : Store) (id : String) : Store := { s with rules := s.rules.erase id }

def precedes (a b : Rule) : Bool :=
  a.priority < b.priority || a.priority = b.priority && a.id ≤ b.id

def rulesFor (s : Store) (project topic : String) (onlyEnabled : Bool) : List Rule :=
  (s.rules.values.filter fun r =>
    r.project = project && r.sourceTopic = topic && (!onlyEnabled || r.enabled)).mergeSort precedes

def insertKnownTopic (s : Store) (k : KnownTopic) : Store :=
  { s with knownTopics := s.knownTopics.insert (topicKey k.project k.topic) k }

def removeKnownTopic (s : Store) (project topic : String) : Store :=
  { s with knownTopics := s.knownTopics.erase (topicKey project topic) }

def knownTopic? (s : Store) (project topic : String) : Option KnownTopic :=
  s.knownTopics.get? (topicKey project topic)

/-- The first known topic with that address or, if there is none, the first with that name. -/
def findKnownTopic? (s : Store) (name : String) : Option KnownTopic :=
  match s.knownTopics.values.find? fun k => k.address = name with
  | some k => some k
  | none => s.knownTopics.values.find? fun k => k.topic = name

def history (s : Store) (project topic : String) : List HistoryEntry :=
  (s.histories.get? (topicKey project topic)).getD []

def recent (limit : Nat) (entries : List HistoryEntry) : List HistoryEntry :=
  entries.drop (entries.length - limit)

def pushHistory (s : Store) (e : HistoryEntry) : Store :=
  let entries := s.history e.project e.topic ++ [e]
  { s with
    histories := s.histories.insert (topicKey e.project e.topic) (recent s.historyLimit entries) }

def insertDevice (s : Store) (d : Device) : Store :=
  { s with devices := s.devices.insert d.macAddress d }

def device? (s : Store) (macAddress : String) : Option Device := s.devices.get? macAddress

end Store

end TopicHub
