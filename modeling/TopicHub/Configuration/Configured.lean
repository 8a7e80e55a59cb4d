import TopicHub.Configuration.Settings

/-!
The rules, the topics and the subscriptions that settings ask for. A rule without an id gets one that
stays the same as long as its place in the configuration does.
-/

namespace TopicHub

def derivedIdStart : String := "config:"

namespace RuleSettings

def derivedId (r : RuleSettings) : String :=
  derivedIdStart ++ r.project ++ "/" ++ r.sourceTopic ++ "/" ++ r.targetTopic ++ "/" ++
    toString r.priority

def rule (r : RuleSettings) (namespaceName id : String) : Rule :=
  { id, namespaceName, project := r.project, sourceTopic := r.sourceTopic,
    targetTopic := r.targetTopic, expression := r.expression, targetPayload := r.targetPayload,
    triggerCondition := r.triggerCondition, priority := r.priority, enabled := r.enabled,
    delayMs := r.delayMs, lastTrigger := none, evaluationResult := false,
    evaluationProtocol := none }

end RuleSettings

def TopicSettings.knownTopic (t : TopicSettings) (namespaceName : String) : KnownTopic :=
  { KnownTopic.bare t.project t.topic with
    namespaceName, description := t.description, direction := t.direction,
    keepHistory := t.keepHistory }

namespace Settings

/-- The id of a rule in front of which the rules without an id got the derived ids `seen`. From the
second of one derived id on they are numbered. -/
def idAfter (seen : List String) (r : RuleSettings) : String :=
  match r.id with
  | some id => id
  | none =>
    let count := seen.count r.derivedId + 1
    if 1 < count then r.derivedId ++ "#" ++ toString count else r.derivedId

def rulesAfter (namespaceName : String) (seen : List String) : List RuleSettings → List Rule
  | [] => []
  | r :: rest =>
    r.rule namespaceName (idAfter seen r) ::
      rulesAfter namespaceName (if r.id.isNone then r.derivedId :: seen else seen) rest

def configuredRules (s : Settings) : List Rule := rulesAfter s.namespaceName [] s.rules

def configuredTopics (s : Settings) : List KnownTopic :=
  s.knownTopics.map fun t => t.knownTopic s.namespaceName

/-- The patterns of the topics that the hub listens to, one for each project. -/
def subscriptions (s : Settings) : List String :=
  s.projects.map fun project => s.namespaceName ++ "/" ++ project ++ "/#"

end Settings

end TopicHub
