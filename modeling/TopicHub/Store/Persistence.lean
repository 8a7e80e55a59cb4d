import TopicHub.Store.RecordFile

/-!
Keeping records on the disk: loading them, writing them, and saving single ones. A record that is saved is
in the store even if it could not be written; the next successful writing of its kind writes it too.
Histories are written only on request.
-/

namespace TopicHub.Store

variable {α : Type}

def write (f : RecordFile α) (records : List α) : StoreM Unit := do
  let s ← get
  if s.persistent then
    match s.disk.replace? f.name (f.text records) with
    | some disk => set { s with disk }
    | none => throw .notWritten

def writeRules : StoreM Unit := do write .rules (← get).rules.values

def writeKnownTopics : StoreM Unit := do write .knownTopics (← get).knownTopics.values

def allHistory (s : Store) : List HistoryEntry :=
  s.histories.values.flatten.mergeSort fun a b => a.received.le b.received

def flushHistory : StoreM Unit := do
  let s ← get
  if s.persistent && s.historyChanged then
    write .histories s.allHistory
    modify fun s => { s with historyChanged := false }

def writeDevices : StoreM Unit := do write .devices (← get).devices.values

def persist : StoreM Unit := do
  writeRules
  writeKnownTopics
  flushHistory
  writeDevices

def load (f : RecordFile α) : StoreM (List α) := do
  let s ← get
  if !s.persistent then pure []
  else match s.disk.read? f.name with
    | none => pure []
    | some text => f.read text

/-- Records that are loaded replace those with the same key; histories are added to. -/
def loadAll : StoreM Unit := do
  let rules ← load .rules
  modify fun s => rules.foldl insertRule s
  let known ← load .knownTopics
  modify fun s => known.foldl insertKnownTopic s
  let entries ← load .histories
  modify fun s => entries.foldl pushHistory s
  let devices ← load .devices
  modify fun s => devices.foldl insertDevice s

def saveRule (r : Rule) : StoreM Unit := do
  ensure .saveRule
  if r.id.isEmpty then throw (.invalid "rule" "rule id cannot be empty")
  modify (insertRule · r)
  writeRules

def saveKnownTopic (k : KnownTopic) : StoreM Unit := do
  ensure .saveKnownTopic
  if k.topic.isEmpty then throw (.invalid "known topic" "topic cannot be empty")
  modify (insertKnownTopic · k)
  writeKnownTopics

def appendHistory (e : HistoryEntry) : StoreM Unit := do
  ensure .appendHistory
  modify fun s => { s.pushHistory e with historyChanged := true }

def saveDevice (d : Device) : StoreM Unit := do
  ensure .saveDevice
  if d.macAddress.isEmpty then throw (.invalid "microcontroller" "MAC address cannot be empty")
  modify (insertDevice · d)
  writeDevices

def loadRules (project topic : String) : StoreM (List Rule) := do
  ensure .loadRules
  pure ((← get).rulesFor project topic true)

def getKnownTopic (project topic : String) : StoreM (Option KnownTopic) := do
  ensure .findKnownTopic
  pure ((← get).knownTopic? project topic)

/-- The last payload of the known topic with that name or address; an outage finds nothing. -/
def lastPayload? (s : Store) (name : String) : Option String :=
  if .findKnownTopic ∈ s.outages then none else (s.findKnownTopic? name).bind KnownTopic.lastPayload

def getDevice (macAddress : String) : StoreM (Option Device) := do
  ensure .findDevice
  pure ((← get).device? macAddress)

end TopicHub.Store
