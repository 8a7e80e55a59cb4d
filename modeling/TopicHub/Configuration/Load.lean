import TopicHub.Configuration.Configured
import TopicHub.Configuration.Fault
import TopicHub.Configuration.Inclusion
import TopicHub.Yaml.Document

/-!
Loading the configuration of a hub from its directory.
-/

namespace TopicHub

namespace Settings

def fileName : String := "configuration.yaml"

def ofYaml (v : Yaml.Value) : Except ConfigurationError Settings :=
  match v.untagged with
  | .null => .ok standard
  | .mapping _ =>
    match ofDocument? v with
    | some s => .ok s
    | none => .error .mismatch
  | _ => .error .notMapping

/-- Files are stored below the directory of the configuration unless an absolute path is given. -/
def storedBelow (directory : FilePath) (s : Settings) : Settings :=
  { s with storage := { s.storage with path := directory.join s.storage.path } }

def checked (s : Settings) : Except ConfigurationError Settings :=
  match s.fault? with
  | some e => .error e
  | none => .ok s

def load (t : FileTree) (directory : FilePath) (environment : String → Option String) :
    Except ConfigurationError Settings := do
  let v ← Workspace.loadYaml t directory environment (.ofText fileName)
  ((← ofYaml v).storedBelow directory).checked

def directoryVariable : String := "IOT_HUB_CONFIG"

/-- The directory of the configuration: the first argument, the variable, or a fixed name. -/
def directoryOf (argument? : Option String) (environment : String → Option String) : FilePath :=
  .ofText ((argument? <|> environment directoryVariable).getD "config")

end Settings

end TopicHub
