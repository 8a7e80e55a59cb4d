import TopicHub.Text.Cut

/-!
Addresses of messages. The first two segments of an address name a namespace and a project; the rest,
which may itself have several segments, is the topic.
-/

namespace TopicHub

open Text

structure TopicPath where
  namespaceName : String
  project : String
  topic : String
  deriving DecidableEq, Repr, Inhabited

inductive TopicError where
  | tooFewSegments (found : Nat)
  | emptyNamespace
  | emptyProject
  | emptyTopic
  deriving DecidableEq, Repr

def TopicError.message : TopicError → String
  | .tooFewSegments n =>
    "topic path must have at least three segments (namespace/project/topic), got " ++ toString n
  | .emptyNamespace => "namespace cannot be empty"
  | .emptyProject => "project cannot be empty"
  | .emptyTopic => "topic cannot be empty"

namespace TopicPath

def parse (path : String) : Except TopicError TopicPath :=
  match cut? ['/'] path.toList with
  | none => .error (.tooFewSegments 1)
  | some (space, rest) =>
    match cut? ['/'] rest with
    | none => .error (.tooFewSegments 2)
    | some (project, topic) =>
      if space.isEmpty then .error .emptyNamespace
      else if project.isEmpty then .error .emptyProject
      else if topic.isEmpty then .error .emptyTopic
      else .ok ⟨String.ofList space, String.ofList project, String.ofList topic⟩

def text (p : TopicPath) : String := p.namespaceName ++ "/" ++ p.project ++ "/" ++ p.topic

end TopicPath

def segmentCount (path : String) : Nat := (splitOn '/' path.toList).length

/-- The address of a topic; empty parts in front are left out, an empty project only together with an
empty namespace. -/
def fullTopic (namespaceName project topic : String) : String :=
  if namespaceName.isEmpty then
    if project.isEmpty then topic else project ++ "/" ++ topic
  else namespaceName ++ "/" ++ project ++ "/" ++ topic

def aliveName : String := "alive"

def aliveAckName : String := "alive_ack"

/-- Devices that have lost their namespace report here. -/
def lostName : String := "i_am_lost"

def registerTopicName : String := "register_known_topic"

def registerDeviceName : String := "register_microcontroller"

def saveConfigName : String := "save_microcontroller_config"

/-- The project of devices that never told theirs. -/
def defaultProject : String := "default_project"

/-- Whether an address is a control address of a lost device: at most two segments and the reserved
name in front. -/
def isLost (path : String) : Bool :=
  segmentCount path < 3 && (after? lostName.toList path.toList).isSome

def isReserved (topic name : String) : Bool :=
  topic = name || (after? (name.toList.reverse ++ ['/']) topic.toList.reverse).isSome

def withoutAddress (topic namespaceName project : String) : String :=
  match after? (namespaceName ++ "/" ++ project ++ "/").toList topic.toList with
  | some rest => String.ofList rest
  | none => topic

end TopicHub
