import TopicHub.Json.PathReader
import TopicHub.Json.Writer

/-!
Paths that are written into other text, and the values that they pick from a payload.
-/

namespace TopicHub.Json

open TopicHub.Text

/-- Groups in brackets and members behind points, as far as they follow each other, and what is left.
None if a bracket is not closed. The first argument bounds the number of groups. -/
def readGroups : Nat → List Char → Option (List Char × List Char)
  | 0, s => some ([], s)
  | fuel + 1, s =>
    match s with
    | '[' :: t =>
      match cut? [']'] t with
      | none => none
      | some (group, rest) =>
        (readGroups fuel rest).map fun (more, rest) => ('[' :: group ++ ']' :: more, rest)
    | '.' :: c :: t =>
      if c.isAlpha || c = '_' then
        let name := (c :: t).takeWhile fun c => c.isAlphanum || c = '_'
        (readGroups fuel ((c :: t).dropWhile fun c => c.isAlphanum || c = '_')).map
          fun (more, rest) => ('.' :: name ++ more, rest)
      else some ([], s)
    | s => some ([], s)

structure Inline where
  before : List Char
  path : List Char
  after : List Char
  deriving DecidableEq, Repr

def Inline.find? (text : List Char) : Option Inline :=
  (cut? ['$', '['] text).bind fun (before, rest) =>
    (readGroups (rest.length + 1) ('[' :: rest)).map fun (groups, after) =>
      ⟨before, '$' :: groups, after⟩

def holdsPath (text : List Char) : Bool := contains text ['$', '[']

def firstMatch (path : List Char) (document : String) : Option Value := do
  let v ← Value.read? document
  let p ← Path.read? path
  (p.nodes v).head?

def childPath (key : String) : List Char :=
  let escape (c : Char) : List Char :=
    if c = '\\' || c = '\'' then ['\\', c] else [c]
  "$.*['".toList ++ key.toList.flatMap escape ++ "']".toList

/-- The member of that name in a document or else in one of its children. -/
def memberOf (document key : String) : Option Value :=
  match (Value.read? document).bind (Value.field? key) with
  | some v => some v
  | none => firstMatch (childPath key) document

def Value.plainText : Value → String
  | .string s => s
  | v => v.pretty

end TopicHub.Json
