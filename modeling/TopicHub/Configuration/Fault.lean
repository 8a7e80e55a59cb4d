import TopicHub.Configuration.Error
import TopicHub.Configuration.Settings

/-!
Settings that can be read but not used.
-/

namespace TopicHub.Settings

def isBlankText (s : String) : Bool := (Text.trim s.toList).isEmpty

/-- What is wrong with a rule. With no projects given every project is known. -/
def ruleFault? (s : Settings) (r : RuleSettings) : Option RuleFault :=
  if isBlankText r.sourceTopic || isBlankText r.targetTopic then some .missingTopic
  else if !s.projects.isEmpty && !s.projects.contains r.project then
    some (.unknownProject r.project)
  else none

def firstFault? (s : Settings) (index : Nat) : List RuleSettings → Option (Nat × RuleFault)
  | [] => none
  | r :: rest =>
    match s.ruleFault? r with
    | some fault => some (index, fault)
    | none => s.firstFault? (index + 1) rest

def fault? (s : Settings) : Option ConfigurationError :=
  if s.namespaceName.isEmpty || s.namespaceName.toList.contains '/' then
    some (.invalidNamespace s.namespaceName)
  else if s.cache.capacity = 0 then some .emptyCache
  else
    match s.firstFault? 0 s.rules with
    | some (index, fault) => some (.invalidRule index fault)
    | none => (s.scripts.findIdx? fun script => isBlankText script.name).map .unnamedScript

end TopicHub.Settings
