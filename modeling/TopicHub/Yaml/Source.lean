import TopicHub.Text.Cut

/-!
The characters of a YAML text with their places. Line breaks are one character each, whatever they
were written as.
-/

namespace TopicHub.Yaml

/-- A character and where it stands. -/
structure Placed where
  char : Char
  line : Nat
  column : Nat
  index : Nat
  deriving DecidableEq, Repr

abbrev Source := List Placed

def isBreak (c : Char) : Bool := c = '\n' || c = '\u2028' || c = '\u2029'

def isSpaceOrTab (c : Char) : Bool := c = ' ' || c = '\t'

def isGap (c : Char) : Bool := isSpaceOrTab c || isBreak c

def isNameChar (c : Char) : Bool := c.isAlphanum || c = '_' || c = '-'

def isAllowed (c : Char) : Bool :=
  let n := c.toNat
  n = 0x09 || n = 0x0A || n = 0x0D || (0x20 ≤ n && n ≤ 0x7E) || n = 0x85
    || (0xA0 ≤ n && n ≤ 0xD7FF) || (0xE000 ≤ n && n ≤ 0xFFFD) || 0x10000 ≤ n

namespace Source

def place (line column index : Nat) : List Char → Source
  | [] => []
  | '\r' :: '\n' :: s => ⟨'\n', line, column, index⟩ :: place (line + 1) 0 (index + 2) s
  | c :: s =>
    if c = '\n' || c = '\r' || c = '\u0085' then
      ⟨'\n', line, column, index⟩ :: place (line + 1) 0 (index + 1) s
    else if isBreak c then ⟨c, line, column, index⟩ :: place (line + 1) 0 (index + 1) s
    else ⟨c, line, column, index⟩ :: place line (column + 1) (index + 1) s

/-- A mark of the byte order at the start is passed over, but it takes up a column. -/
def ofText? (s : List Char) : Option Source :=
  if s.all isAllowed then
    match s with
    | '\uFEFF' :: rest => some (place 0 1 1 rest)
    | _ => some (place 0 0 0 s)
  else none

def char? (s : Source) (n : Nat) : Option Char := s[n]?.map Placed.char

def gapAt (s : Source) (n : Nat) : Bool :=
  match s.char? n with
  | none => true
  | some c => isGap c

def column : Source → Nat
  | [] => 0
  | p :: _ => p.column

def text (s : Source) : List Char := s.map Placed.char

def startsWith (s : Source) (word : List Char) : Bool :=
  text (s.take word.length) = word

def atDocumentMark (s : Source) (mark : List Char) : Bool :=
  !s.isEmpty && s.column = 0 && s.startsWith mark && s.gapAt 3

def atAnyDocumentMark (s : Source) : Bool :=
  s.atDocumentMark "---".toList || s.atDocumentMark "...".toList

def dropBlanks (s : Source) : Source := s.dropWhile fun p => isSpaceOrTab p.char

def dropLine (s : Source) : Source := s.dropWhile fun p => !isBreak p.char

def takeName (s : Source) : List Char := text (s.takeWhile fun p => isNameChar p.char)

def dropName (s : Source) : Source := s.dropWhile fun p => isNameChar p.char

end Source

end TopicHub.Yaml
