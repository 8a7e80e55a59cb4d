import TopicHub.Configuration.FilePath

/-!
A tree of text files. A path leads through directories, each of which has to exist even if the next
part leads back out of it.
-/

namespace TopicHub

abbrev Place := List String

structure FileTree where
  files : List (Place × String)
  directories : List Place
  workingDirectory : Place

namespace FileTree

def content? (t : FileTree) (p : Place) : Option String :=
  (t.files.find? fun f => f.1 = p).map Prod.snd

def isDirectory (t : FileTree) (p : Place) : Bool :=
  p.isEmpty || (t.directories.any fun d => p.isPrefixOf d)
    || (t.files.any fun f => p.isPrefixOf f.1 && p.length < f.1.length)

def holds (t : FileTree) (p : Place) : Bool := t.isDirectory p || (t.content? p).isSome

def step? (t : FileTree) (here : Place) (part : String) : Option Place :=
  if !t.isDirectory here then none
  else if FilePath.isIdle part then some here
  else if part = ".." then some here.dropLast
  else if t.holds (here ++ [part]) then some (here ++ [part])
  else none

def pathLimit : Nat := 4095

def find? (t : FileTree) (p : FilePath) : Option Place :=
  if p.isEmpty || pathLimit < p.text.utf8ByteSize then none
  else p.parts.foldlM t.step? (if p.isAbsolute then [] else t.workingDirectory)

def read? (t : FileTree) (p : FilePath) : Option String := (t.find? p).bind t.content?

def hasDirectory (t : FileTree) (p : FilePath) : Bool := (t.find? p).any t.isDirectory

/-- The name of a place directly within a directory on the way to a file. -/
def nameWithin? (directory : Place) (p : Place) : Option String :=
  if directory.isPrefixOf p then (p.drop directory.length).head? else none

def names (t : FileTree) (p : FilePath) : List String :=
  match t.find? p with
  | none => []
  | some directory =>
    let names := (t.files.map Prod.fst ++ t.directories).filterMap (nameWithin? directory)
    names.eraseDups.mergeSort fun a b => a ≤ b

end FileTree

end TopicHub
