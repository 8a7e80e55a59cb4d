import TopicHub.Router.Basic

/-!
Messages that devices send to the hub itself: heartbeats, registrations of topics and of devices, and calls
for help from devices that have lost their namespace.
-/

namespace TopicHub.Router

open Text

def ackSuffix : String := "_ack"

/-- Every heartbeat is acknowledged with the time, and one that describes its device also at the device's
own address. -/
def acknowledge (e : Entry) : HandlerM Unit := do
  publish (.plain (e.address ++ ackSuffix) (← get).now.offsetText)
  match DeviceAnnouncement.ofHeartbeat? e.payload with
  | none => pure ()
  | some device =>
    let project := if device.project.isEmpty then e.project else device.project
    let topic := e.namespaceName ++ "/" ++ project ++ "/" ++ device.boardType ++ "/" ++
      device.macAddress ++ "/" ++ aliveAckName
    publish (.plain topic "ok")

/-- What stands for the reason why a document cannot be read. -/
def unreadableReason : String := "<json>"

def firstNonempty (s fallback : String) : String := if s.isEmpty then fallback else s

/-- The topic that an announcement registers; what it leaves open is taken from its address. -/
def announcedTopic (e : Entry) (a : TopicAnnouncement) : KnownTopic :=
  let k := a.toKnownTopic
  let space := firstNonempty k.namespaceName e.namespaceName
  let project := firstNonempty k.project e.project
  { k with namespaceName := space, project, topic := withoutAddress k.topic space project }

def registerTopic (e : Entry) : HandlerM Unit :=
  match TopicAnnouncement.read? e.payload with
  | none => throw (.invalidPayload e.address unreadableReason)
  | some a => stored (Store.saveKnownTopic (announcedTopic e a))

def deviceTopic (d : Device) (k : KnownTopic) : KnownTopic :=
  { k with
    namespaceName := d.namespaceName
    project := d.project
    topic := withoutAddress k.topic d.namespaceName d.project
    allowEdit := some false
    allowDelete := some false
    sender := some d.macAddress }

def saveUnlessKnown (k : KnownTopic) : HandlerM Unit := do
  if (← stored (Store.getKnownTopic k.project k.topic)).isNone then
    stored (Store.saveKnownTopic k)

def registerDevice (e : Entry) : HandlerM Unit :=
  match DeviceAnnouncement.read? e.payload with
  | none => throw (.invalidPayload e.address unreadableReason)
  | some a => do
    let d := { a.toDevice with
      namespaceName := firstNonempty a.namespaceName e.namespaceName
      project := firstNonempty a.project e.project
      bootTime := some (← get).now }
    let topics := a.toTopics.map (deviceTopic d)
    topics.forM saveUnlessKnown
    stored (Store.saveDevice { d with knownTopics := topics })

def adopted (r : Router) (a : DeviceAnnouncement) (project : String) : Device :=
  { Device.bare a.macAddress with
    namespaceName := r.namespaceName
    project
    ipAddress := a.ipAddress
    boardType := a.boardType
    firmwareVersion := a.firmwareVersion
    ipMqttBroker := r.brokerHost }

/-- The record of a lost device, made if there is none. -/
def recordOf (a : DeviceAnnouncement) (project : String) : HandlerM Device := do
  match ← stored (Store.getDevice a.macAddress) with
  | some d => pure d
  | none =>
    let d := (← get).adopted a project
    stored (Store.saveDevice d)
    pure d

/-- Brings a lost device back into the namespace. The result says whether it was sent its settings; a
device that names the namespace and its own project has them already. -/
def handleLost (payload : String) : HandlerM Bool :=
  match DeviceAnnouncement.read? payload with
  | none => throw (.invalidPayload lostName unreadableReason)
  | some a => do
    if a.macAddress.isEmpty then throw (.invalidPayload lostName "MAC address is missing")
    let project := firstNonempty a.project defaultProject
    let d ← recordOf a project
    let space := (← get).namespaceName
    if d.project = project && a.namespaceName = space then pure false
    else
      let d := { d with namespaceName := space }
      stored (Store.saveDevice d)
      publish (.plain (d.macAddress ++ "/" ++ saveConfigName)
        (DeviceAnnouncement.ofDevice d).toJson.compact)
      pure true

def isHeartbeat (topic : String) : Bool :=
  (after? aliveName.toList.reverse (lower topic.toList).reverse).isSome

def handleReserved (e : Entry) : HandlerM Unit :=
  if e.payload.isEmpty then pure ()
  else if isHeartbeat e.topic then acknowledge e
  else if isReserved e.topic registerTopicName then registerTopic e
  else if isReserved e.topic registerDeviceName then registerDevice e
  else pure ()

end TopicHub.Router
