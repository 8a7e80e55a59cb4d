import TopicHub.Yaml.Node
import TopicHub.Yaml.Scalar

/-!
Reading YAML texts as values. Aliases are replaced by what they stand for; bounds on the depth and on the
number of replacements keep documents from growing without limit.
-/

namespace TopicHub.Yaml

/-- Reading values counts down the aliases that may still be followed. -/
abbrev ValueM := StateT Nat Option

namespace Value

def countAlias : ValueM Unit := do
  let left ← get
  if left = 0 then failure else set (left - 1)

def follow (find? : Nat → Option Node) : Node → ValueM Node
  | .alias n => do
    countAlias
    match find? n with
    | some node => pure node
    | none => failure
  | node => pure node

def extend? (key value : Value) (entries : List (Value × Value)) : Option (List (Value × Value)) :=
  if hasKey key entries then none else some (entries ++ [(key, value)])

/-- Reads a node with at most `depth` collections in each other. A key may not come twice. -/
def ofNode (find? : Nat → Option Node) : (depth : Nat) → Node → ValueM Value
  | 0, node => do
    match ← follow find? node with
    | .scalar _ tag isPlain text => (ofScalar? tag isPlain text : Option Value)
    | _ => failure
  | depth + 1, node => do
    match ← follow find? node with
    | .alias _ => failure
    | .scalar _ tag isPlain text => (ofScalar? tag isPlain text : Option Value)
    | .sequence _ tag items => return withTag tag (.sequence (← items.mapM (ofNode find? depth)))
    | .mapping _ tag entries =>
      let read ← entries.foldlM (fun done e => do
        let key ← ofNode find? depth e.1
        let value ← ofNode find? depth e.2
        (extend? key value done : Option _)) []
      return withTag tag (.mapping read)

def depthLimit : Nat := 128

def aliasLimit (node : Node) : Nat := 100 * node.size

def ofDocument? (node : Node) : Option Value :=
  ((ofNode (Node.byNumber? node.anchored) depthLimit node).run (aliasLimit node)).map Prod.fst

def ofText? (s : String) : Option Value :=
  (Node.ofText? s).bind fun
    | none => some .null
    | some node => ofDocument? node

def keyText (find? : Nat → Option Node) (node : Node) : ValueM String := do
  match ← follow find? node with
  | .scalar _ _ _ text => pure (String.ofList text)
  | _ => failure

def dictionaryOfText? (s : String) : Option (List (String × Value)) :=
  (Node.ofText? s).bind fun
    | none => some []
    | some (.scalar _ _ isPlain text) => if isPlain && text.isEmpty then some [] else none
    | some (.mapping a tag entries) =>
      let node := Node.mapping a tag entries
      let find? := Node.byNumber? node.anchored
      let read : ValueM (List (String × Value)) := entries.mapM fun e => do
        return (← keyText find? e.1, ← ofNode find? (depthLimit - 1) e.2)
      (read.run (aliasLimit node)).map Prod.fst
    | some _ => none

end Value

end TopicHub.Yaml
