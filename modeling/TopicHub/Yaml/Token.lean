import TopicHub.Yaml.Literal
import TopicHub.Yaml.Plain
import TopicHub.Yaml.Quoted

/-!
Tokens of YAML texts: marks, names, tags, directives and scalars. What depends on indentation is left to
the layout.
-/

namespace TopicHub.Yaml

open Number

inductive Token where
  | version (major minor : Nat)
  | handle (name meaning : List Char)
  | documentStart
  | documentEnd
  | blockSequence
  | blockMapping
  | blockEnd
  | flowSequence
  | flowSequenceEnd
  | flowMapping
  | flowMappingEnd
  | blockEntry
  | flowEntry
  | key
  | value
  | alias (name : List Char)
  | anchor (name : List Char)
  | tag (handle suffix : List Char)
  | scalar (isPlain : Bool) (text : List Char)
  deriving DecidableEq, Repr

namespace Token

def readAnchor? (s : Source) : Option (List Char × Source) :=
  let name := s.takeName
  let rest := s.dropName
  let closes := rest.gapAt 0 || ("?:,]\x7d%@\x60".toList.any fun c => rest.char? 0 = some c)
  if !name.isEmpty && closes then some (name, rest) else none

def readOctet? (s : Source) : Option (Nat × Source) :=
  if s.char? 0 = some '%' && 3 ≤ s.length then
    (hexValue? (Source.text ((s.drop 1).take 2))).map (·, s.drop 3)
  else none

def readMoreOctets? : (count code : Nat) → Source → Option (Nat × Source)
  | 0, code, s => some (code, s)
  | n + 1, code, s =>
    (readOctet? s).bind fun (octet, rest) =>
      if octet / 64 = 2 then readMoreOctets? n (code * 64 + octet % 64) rest else none

def readOctets? (s : Source) : Option (Char × Source) := do
  let (first, rest) ← readOctet? s
  let (count, code) ←
    if first < 128 then some (0, first)
    else if first / 32 = 6 then some (1, first % 32)
    else if first / 16 = 14 then some (2, first % 16)
    else if first / 8 = 30 then some (3, first % 8)
    else none
  let (code, rest) ← readMoreOctets? count code rest
  if h : code.isValidChar then some (Char.ofNatAux code h, rest) else none

/-- Characters of tags; commas and square brackets only where the end of the tag is marked. -/
def isTagChar (marked : Bool) (c : Char) : Bool :=
  isNameChar c || ";/?:@&=+$.!~*'()".toList.contains c || (marked && (c = ',' || c = '[' || c = ']'))

def readTagText? (marked : Bool) : Nat → Source → Option (List Char × Source)
  | 0, _ => none
  | _, [] => some ([], [])
  | fuel + 1, p :: s =>
    if p.char = '%' then
      (readOctets? (p :: s)).bind fun (c, rest) =>
        (readTagText? marked fuel rest).map fun (t, rest) => (c :: t, rest)
    else if isTagChar marked p.char then
      (readTagText? marked fuel s).map fun (t, rest) => (p.char :: t, rest)
    else some ([], p :: s)

def tagText? (marked : Bool) (s : Source) : Option (List Char × Source) :=
  readTagText? marked (s.length + 1) s

def readHandle? (s : Source) : Option (List Char × Source) :=
  if s.char? 0 = some '!' then
    let s := s.drop 1
    let name := '!' :: Source.takeName s
    let rest := Source.dropName s
    if rest.char? 0 = some '!' then some (name ++ ['!'], rest.drop 1) else some (name, rest)
  else none

/-- A tag of two parts. Without a handle of its own the handle is a single exclamation mark, and a
lone exclamation mark is a tag without a handle. -/
def readTag? (s : Source) : Option (Token × Source) := do
  if s.char? 1 = some '<' then
    let (text, rest) ← tagText? true (s.drop 2)
    if text.isEmpty || rest.char? 0 ≠ some '>' then none
    else pure (.tag [] text, rest.drop 1)
  else
    let (head, rest) ← readHandle? s
    if 1 < head.length && head.getLast? = some '!' then
      let (suffix, rest) ← tagText? false rest
      if suffix.isEmpty then none else pure (.tag head suffix, rest)
    else
      let (more, rest) ← tagText? false rest
      let suffix := head.drop 1 ++ more
      if suffix.isEmpty then pure (.tag [] ['!'], rest) else pure (.tag ['!'] suffix, rest)

def closesTag (flow : Bool) (s : Source) : Bool :=
  s.gapAt 0 || (flow && s.char? 0 = some ',')

def readVersionNumber? (s : Source) : Option (Nat × Source) :=
  let digits := s.takeWhile fun p => isDigit p.char
  if digits.isEmpty || 9 < digits.length then none
  else some (natFrom 0 (Source.text digits), s.dropWhile fun p => isDigit p.char)

def readVersion? (s : Source) : Option (Token × Source) := do
  let (major, s) ← readVersionNumber? s.dropBlanks
  if s.char? 0 ≠ some '.' then none
  else
    let (minor, s) ← readVersionNumber? (s.drop 1)
    pure (.version major minor, s)

def readHandleMeaning? (s : Source) : Option (Token × Source) := do
  let (name, s) ← readHandle? s.dropBlanks
  if name.getLast? ≠ some '!' then none
  else if (s.char? 0).any isSpaceOrTab then
    let (meaning, s) ← tagText? true s.dropBlanks
    if meaning.isEmpty || !s.gapAt 0 then none else pure (.handle name meaning, s)
  else none

def readDirective? (s : Source) : Option (Token × Source) := do
  let name := s.takeName
  let s := s.dropName
  if !s.gapAt 0 then none
  else
    let (token, s) ←
      if name = "YAML".toList then readVersion? s
      else if name = "TAG".toList then readHandleMeaning? s
      else none
    let s := s.dropBlanks
    let s := if s.char? 0 = some '#' then s.dropLine else s
    if s.isEmpty || (s.char? 0).any isBreak then pure (token, s.drop 1) else none

end Token

end TopicHub.Yaml
