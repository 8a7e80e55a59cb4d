import TopicHub.Configuration.Error
import TopicHub.Configuration.FileTree
import TopicHub.Table
import TopicHub.Yaml.Reader
import TopicHub.Yaml.Writer

/-!
Secrets: texts by name, from a file of their own in the directory of the configuration.
-/

namespace TopicHub

/-- The text that a secret stands for; null stands for the empty text. -/
def Yaml.Value.secretText : Yaml.Value → String
  | .string s => s
  | .null => ""
  | .bool b => if b then "true" else "false"
  | .number n => n.text
  | v => v.text

abbrev Secrets := Table String

namespace Secrets

def fileName : String := "secrets.yaml"

def ofText? (s : String) : Option Secrets :=
  (Yaml.Value.dictionaryOfText? s).map fun entries =>
    entries.foldl (fun secrets e => secrets.insert e.1 e.2.secretText) Table.empty

def load (t : FileTree) (directory : FilePath) : Except ConfigurationError Secrets :=
  let path := directory.join (.ofText fileName)
  if (t.find? path).isNone then .ok Table.empty
  else
    match t.read? path with
    | none => .error (.unreadable path)
    | some content =>
      match ofText? content with
      | none => .error (.invalidYaml path)
      | some secrets => .ok secrets

def find (s : Secrets) (key : String) : Except ConfigurationError String :=
  match s.get? key with
  | some text => .ok text
  | none => .error (.secretNotFound key)

end Secrets

end TopicHub
