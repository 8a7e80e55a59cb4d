import TopicHub.Text.Cut

/-!
Paths of files as they are written. A path is the list of its parts between slashes, so a path that
starts with a slash has an empty first part, and joining keeps every part as it is.
-/

namespace TopicHub

open Text

structure FilePath where
  parts : List String
  deriving DecidableEq, Repr, Inhabited

namespace FilePath

def ofText (s : String) : FilePath := ⟨(splitOn '/' s.toList).map String.ofList⟩

def text (p : FilePath) : String := String.intercalate "/" p.parts

def isAbsolute (p : FilePath) : Bool :=
  match p.parts with
  | "" :: _ :: _ => true
  | _ => false

def isEmpty (p : FilePath) : Bool :=
  match p.parts with
  | [] => true
  | [s] => s = ""
  | _ => false

def join (base p : FilePath) : FilePath :=
  if p.isAbsolute || base.isEmpty then p
  else if base.parts.getLast? = some "" then ⟨base.parts.dropLast ++ p.parts⟩
  else ⟨base.parts ++ p.parts⟩

def isIdle (part : String) : Bool := part = "" || part = "."

def anchor (p : FilePath) : List String :=
  if p.isAbsolute then [""]
  else
    match p.parts with
    | "." :: _ => ["."]
    | _ => []

def body (p : FilePath) : List String := p.parts.drop p.anchor.length

/-- The start and the parts that lead somewhere. Two paths with the same components are the same, but
a part with two dots stays what it is. -/
def components (p : FilePath) : List String := p.anchor ++ p.body.filter fun part => !isIdle part

def root : FilePath := ⟨["", ""]⟩

def dropIdleEnd (parts : List String) : List String := (parts.reverse.dropWhile isIdle).reverse

def parent? (p : FilePath) : Option FilePath :=
  match dropIdleEnd p.body with
  | [] => none
  | parts =>
    let above := dropIdleEnd parts.dropLast
    if !above.isEmpty then some ⟨p.anchor ++ above⟩
    else if p.isAbsolute then some root
    else if p.anchor.isEmpty then some ⟨[""]⟩
    else some ⟨p.anchor⟩

def extension? (name : String) : Option String :=
  let backwards := name.toList.reverse
  match backwards.dropWhile (· ≠ '.') with
  | [] => none
  | [_] => none
  | _ => some (String.ofList (backwards.takeWhile (· ≠ '.')).reverse)

end FilePath

end TopicHub
