import TopicHub.Configuration.Secrets

/-!
Configuration files with the tags of the hub. A tag is replaced by the file, the list of files, the
secret or the environment variable that it names; files within files name their paths from their own
directory.
-/

namespace TopicHub

structure Workspace where
  tree : FileTree
  directory : FilePath
  secrets : Secrets
  environment : String → Option String

/-- Loading keeps the files that are being loaded, also when it fails. -/
abbrev LoadM := ExceptT ConfigurationError (StateM (List FilePath))

namespace Workspace

open Yaml (Value)

def isLoading (p : FilePath) (loading : List FilePath) : Bool :=
  let components := p.components
  loading.any fun q => q.components = components

def release (p : FilePath) (loading : List FilePath) : List FilePath :=
  loading.filter fun q => q.components ≠ p.components

/-- Counts a file as being loaded during an action, whatever comes of it. -/
def whileLoading {α : Type} (p : FilePath) (action : LoadM α) : LoadM α :=
  ExceptT.mk do
    modify (p :: ·)
    let result ← action.run
    modify (release p)
    pure result

def includedPath (w : Workspace) (source : FilePath) : Value → Except ConfigurationError FilePath
  | .string s => .ok ((source.parent?.getD w.directory).join (.ofText s))
  | _ => .error .invalidInclusion

def textArgument (tag : String) (v : Value) : Except ConfigurationError String :=
  match v.untagged with
  | .string s => .ok s
  | _ => .error (.invalidArgument tag)

def secretFor (w : Workspace) (v : Value) : Except ConfigurationError Value := do
  return .string (← w.secrets.find (← textArgument "secret" v))

def variableFor (w : Workspace) (v : Value) : Except ConfigurationError Value := do
  let name ← textArgument "env_var" v
  match w.environment name with
  | some text => pure (.string text)
  | none => throw (.variableNotFound name)

def listed : Value → List Value
  | .sequence items => items
  | .null => []
  | v => [v]

def isYamlName (name : String) : Bool :=
  match FilePath.extension? name with
  | some e => e = "yaml" || e = "yml"
  | none => false

def yamlFiles (w : Workspace) (directory : FilePath) : Except ConfigurationError (List FilePath) :=
  if w.tree.hasDirectory directory then
    .ok (((w.tree.names directory).filter isYamlName).map fun name => directory.join ⟨[name]⟩)
  else .error (.directoryNotFound directory)

def mergedList (w : Workspace) (load : FilePath → LoadM Value) (directory : FilePath) :
    LoadM Value := do
  let contents ← (← w.yamlFiles directory).mapM load
  pure (.sequence (contents.flatMap listed))

mutual
/-- Replaces the tags in a value that stands in the file `source`; tags that are not the hub's stay. -/
def resolve (w : Workspace) (load : FilePath → LoadM Value) (source : FilePath) :
    Value → LoadM Value
  | .tagged tag v => do
    if tag = "include" then load (← w.includedPath source v)
    else if tag = "include_dir_merge_list" then w.mergedList load (← w.includedPath source v)
    else if tag = "secret" then w.secretFor v
    else if tag = "env_var" then w.variableFor v
    else return .tagged tag (← resolve w load source v)
  | .sequence items => return .sequence (← resolveItems w load source items)
  | .mapping entries => return .mapping (← resolveEntries w load source entries [])
  | v => pure v

def resolveItems (w : Workspace) (load : FilePath → LoadM Value) (source : FilePath) :
    List Value → LoadM (List Value)
  | [] => pure []
  | v :: rest => do
    let v ← resolve w load source v
    return v :: (← resolveItems w load source rest)

/-- Keys that become the same are one entry with the last value. -/
def resolveEntries (w : Workspace) (load : FilePath → LoadM Value) (source : FilePath) :
    List (Value × Value) → (done : List (Value × Value)) → LoadM (List (Value × Value))
  | [], done => pure done
  | (k, v) :: rest, done => do
    let k ← resolve w load source k
    let v ← resolve w load source v
    resolveEntries w load source rest (Value.setEntry k v done)
end

def loadText (w : Workspace) (load : FilePath → LoadM Value) (source : FilePath) (content : String) :
    LoadM Value :=
  match Value.ofText? content with
  | some v => w.resolve load source v
  | none => throw (.invalidYaml source)

/-- Reads a file with at most so many files in each other. A relative path starts at the directory of
the configuration. -/
def loadWithin (w : Workspace) : (depth : Nat) → FilePath → LoadM Value
  | 0, p => throw (.unreadable (w.directory.join p))
  | depth + 1, p => do
    let p := w.directory.join p
    if isLoading p (← get) then throw (.circularInclude p)
    else
      match w.tree.read? p with
      | none => throw (.unreadable p)
      | some content => whileLoading p (w.loadText (loadWithin w depth) p content)

/-- A bound that files in each other do not reach. Every inclusion by a relative path either stays in
its directory or makes the path longer, and only an absolute path, which has to be written somewhere,
makes it shorter. -/
def depthLimit (t : FileTree) : Nat :=
  let written := t.files.foldl (fun n f => n + f.2.length) 0
  (t.files.length + 1) * (FileTree.pathLimit + 1) * (written + 1)

def load (w : Workspace) (p : FilePath) : LoadM Value := w.loadWithin (depthLimit w.tree) p

def ofDirectory (t : FileTree) (directory : FilePath) (environment : String → Option String) :
    Except ConfigurationError Workspace := do
  return ⟨t, directory, ← Secrets.load t directory, environment⟩

def loadYaml (t : FileTree) (directory : FilePath) (environment : String → Option String)
    (file : FilePath) : Except ConfigurationError Value := do
  let w ← Workspace.ofDirectory t directory environment
  ((w.load file).run []).1

end Workspace

end TopicHub
