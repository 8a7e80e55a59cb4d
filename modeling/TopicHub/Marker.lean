import TopicHub.Text.Cut

/-!
Markers: calls that are written into conditions and templates.

A read marker is a keyword, blanks, an argument in parentheses and possibly a key in brackets. It does
not start inside a name. A script marker is two colons followed by a name and an argument in
parentheses, with a point in front of the name or a second pair of parentheses around both. Arguments
end at the parenthesis that balances outside quotes.
-/

namespace TopicHub

open Text

structure ReadMarker where
  topic : String
  key : Option String
  deriving DecidableEq, Repr

structure ScriptCall where
  name : String
  argument : String
  deriving DecidableEq, Repr

/-- A marker in its text, which is `before ++ written ++ after`. -/
structure Placed (μ : Type) where
  before : List Char
  written : List Char
  marker : μ
  after : List Char
  deriving DecidableEq, Repr

namespace Placed

variable {μ : Type}

def start (p : Placed μ) : Nat := utf8Size p.before

def stop (p : Placed μ) : Nat := p.start + utf8Size p.written

def behind (front : List Char) (p : Placed μ) : Placed μ := { p with before := front ++ p.before }

end Placed

namespace Marker

def isNameStart (c : Char) : Bool := c.isAlpha || c = '_'

def isNamePart (c : Char) : Bool := c.isAlphanum || c = '_'

abbrev Reading (α : Type) := Option (α × List Char)

/-- An argument and what follows its closing parenthesis. `depth` is the number of parentheses that are
open inside of it and `quote` the mark of the quoted text that the position lies in. -/
def argument? (depth : Nat) (quote : Option Char) : List Char → Reading (List Char)
  | [] => none
  | c :: s =>
    let go (depth : Nat) (quote : Option Char) : Reading (List Char) :=
      (argument? depth quote s).map fun (arg, rest) => (c :: arg, rest)
    match quote with
    | some q => go depth (if c = q then none else some q)
    | none =>
      if c = '\'' || c = '"' then go depth (some c)
      else if c = '(' then go (depth + 1) none
      else if c = ')' then if depth = 0 then some ([], s) else go (depth - 1) none
      else go depth none

def parenthesized? : List Char → Reading (List Char)
  | '(' :: s => argument? 0 none s
  | _ => none

def key? : List Char → Reading (List Char)
  | '[' :: s =>
    match cut? [']'] s with
    | some (key, rest) => some (key, rest)
    | none => none
  | _ => none

def readKeywords : List (List Char) := ["ReadFromMemory".toList, "Read".toList]

def readAfter? (keyword s : List Char) : Reading ReadMarker :=
  match after? keyword s with
  | none => none
  | some s =>
    match parenthesized? (s.dropWhile isAsciiBlank) with
    | none => none
    | some (arg, s) =>
      let topic := String.ofList (unquote arg)
      match key? s with
      | some (key, rest) => some (⟨topic, some (String.ofList (unquote key))⟩, rest)
      | none => some (⟨topic, none⟩, s)

def readAt? (s : List Char) : Reading ReadMarker := readKeywords.findSome? fun k => readAfter? k s

def consumed (s rest : List Char) : List Char := s.take (s.length - rest.length)

/-- The first read marker of a text that follows the character `previous`. -/
def findRead (previous : Option Char) : List Char → Option (Placed ReadMarker)
  | [] => none
  | c :: s =>
    match if previous.any isNamePart then none else readAt? (c :: s) with
    | some (marker, rest) => some ⟨[], consumed (c :: s) rest, marker, rest⟩
    | none => (findRead (some c) s).map fun p => { p with before := c :: p.before }

def findReadFrom (text : List Char) (offset : Nat) : Option (Placed ReadMarker) :=
  (cutAt? offset text).bind fun (front, rest) =>
    (findRead front.getLast? rest).map (Placed.behind front)

/-- The read markers behind `front`, in order and without overlap. A text of `n` characters holds at
most `n` of them. -/
def readMarkersBehind : Nat → (front rest : List Char) → List (Placed ReadMarker)
  | 0, _, _ => []
  | n + 1, front, rest =>
    match findRead front.getLast? rest with
    | none => []
    | some p =>
      let placed := p.behind front
      placed :: readMarkersBehind n (placed.before ++ placed.written) p.after

def readMarkers (text : List Char) : List (Placed ReadMarker) :=
  readMarkersBehind text.length [] text

def nameAndArgument? (s : List Char) : Reading ScriptCall :=
  if s.head?.any isNameStart then
    match parenthesized? ((s.dropWhile isNamePart).dropWhile isAsciiBlank) with
    | none => none
    | some (arg, rest) =>
      some (⟨String.ofList (s.takeWhile isNamePart), String.ofList (trim arg)⟩, rest)
  else none

def scriptAt? : List Char → Reading ScriptCall
  | '(' :: t =>
    match nameAndArgument? t with
    | none => none
    | some (marker, rest) =>
      match rest.dropWhile isAsciiBlank with
      | ')' :: rest => some (marker, rest)
      | _ => none
  | '.' :: t => nameAndArgument? t
  | t => nameAndArgument? t

/-- The first script call of a text. Two colons that start no call are passed over together. -/
def findScript : List Char → Option (Placed ScriptCall)
  | [] => none
  | ':' :: ':' :: s =>
    match scriptAt? s with
    | some (marker, rest) => some ⟨[], ':' :: ':' :: consumed s rest, marker, rest⟩
    | none => (findScript s).map fun p => { p with before := ':' :: ':' :: p.before }
  | c :: s => (findScript s).map fun p => { p with before := c :: p.before }

def findScriptFrom (text : List Char) (offset : Nat) : Option (Placed ScriptCall) :=
  (cutAt? offset text).bind fun (front, rest) => (findScript rest).map (Placed.behind front)

/-- The number of pairs of colons, whether they start a call or not. -/
def scriptMarkerCount : List Char → Nat
  | ':' :: ':' :: s => scriptMarkerCount s + 1
  | _ :: s => scriptMarkerCount s
  | [] => 0

end Marker

end TopicHub
