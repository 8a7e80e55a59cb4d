import TopicHub.Record
import TopicHub.Yaml.Value

/-!
YAML values as documents of records. A record is always a mapping, null stands for an empty list or
mapping, and a tag in front of a value counts only where a choice is named.
-/

namespace TopicHub.Yaml

def members? (entries : List (Value × Value)) : Option (List (String × Value)) :=
  entries.mapM fun e =>
    match e.1.untagged with
    | .string k => some (k, e.2)
    | _ => none

instance : Document Value where
  isNull
    | .null => true
    | _ => false
  text? v :=
    match v.untagged with
    | .string s => some s
    | _ => none
  bool? v :=
    match v.untagged with
    | .bool b => some b
    | _ => none
  integer? v :=
    match v.untagged with
    | .number (.int n) => some n
    | _ => none
  items? v :=
    match v.untagged with
    | .sequence items => some items
    | .null => some []
    | _ => none
  fields? _ := none
  members? v :=
    match v.untagged with
    | .mapping entries => members? entries
    | .null => some []
    | _ => none
  choice?
    | .string s => some s
    | .tagged name v =>
      match v.untagged with
      | .null => some name
      | _ => none
    | _ => none

end TopicHub.Yaml
