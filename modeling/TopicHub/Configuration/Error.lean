import TopicHub.Configuration.FilePath

/-!
Why a configuration cannot be used.
-/

namespace TopicHub

inductive RuleFault where
  | missingTopic
  | unknownProject (project : String)
  deriving DecidableEq, Repr

def RuleFault.message : RuleFault → String
  | .missingTopic => "source and target topic are required"
  | .unknownProject project => "unknown project '" ++ project ++ "'"

inductive ConfigurationError where
  | unreadable (path : FilePath)
  | invalidYaml (path : FilePath)
  | invalidInclusion
  | invalidArgument (tag : String)
  | circularInclude (path : FilePath)
  | directoryNotFound (path : FilePath)
  | secretNotFound (key : String)
  | variableNotFound (name : String)
  | notMapping
  | mismatch
  | invalidNamespace (name : String)
  | emptyCache
  | invalidRule (index : Nat) (fault : RuleFault)
  | unnamedScript (index : Nat)
  deriving DecidableEq, Repr

def ConfigurationError.message : ConfigurationError → String
  | .unreadable path => "cannot read " ++ path.text ++ ": <io>"
  | .invalidYaml path => path.text ++ " is not valid YAML: <yaml>"
  | .invalidInclusion => "!include: path must be a string, got <value>"
  | .invalidArgument tag => "!" ++ tag ++ ": argument must be a string"
  | .circularInclude path => path.text ++ " includes itself"
  | .directoryNotFound path => "no directory at " ++ path.text
  | .secretNotFound key => "secret '" ++ key ++ "' is not defined in secrets.yaml"
  | .variableNotFound name => "environment variable '" ++ name ++ "' is not set"
  | .notMapping => "configuration does not match the hub schema: configuration must be a mapping"
  | .mismatch => "<serde>"
  | .invalidNamespace name => "namespace '" ++ name ++ "' must be non-empty and must not contain '/'"
  | .emptyCache => "cache capacity must be greater than zero"
  | .invalidRule index fault => "rule #" ++ toString index ++ ": " ++ fault.message
  | .unnamedScript index => "script #" ++ toString index ++ " has no name"

end TopicHub
