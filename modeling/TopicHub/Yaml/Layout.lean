import TopicHub.Yaml.Token

/-!
The layout of YAML texts: tokens with the starts and the ends of the collections that indentation
marks. A key is known as one only by the colon behind it, so what might be a key is kept in mind, and
the tokens that announce it are put in front of it later.
-/

namespace TopicHub.Yaml

/-- A place where a key may start. -/
structure PossibleKey where
  required : Bool
  number : Nat
  start : Placed

structure Layout where
  source : Source
  /-- The tokens so far, the newest first. -/
  tokens : List Token
  indent : Int
  outer : List Int
  key : Option PossibleKey
  outerKeys : List (Option PossibleKey)
  keyAllowed : Bool

namespace Layout

def start (source : Source) : Layout := ⟨source, [], -1, [], none, [], true⟩

def inFlow (l : Layout) : Bool := !l.outerKeys.isEmpty

def push (t : Token) (l : Layout) : Layout := { l with tokens := t :: l.tokens }

def insert (number : Nat) (t : Token) (l : Layout) : Layout :=
  let newer := l.tokens.length - number
  { l with tokens := l.tokens.take newer ++ t :: l.tokens.drop newer }

def allow (allowed : Bool) (l : Layout) : Layout := { l with keyAllowed := allowed }

def withRest (source : Source) (l : Layout) : Layout := { l with source }

def skip (count : Nat) (l : Layout) : Layout := { l with source := l.source.drop count }

def openAt (column : Int) (number : Nat) (t : Token) (l : Layout) : Layout :=
  if !l.inFlow && l.indent < column then
    { l.insert number t with indent := column, outer := l.indent :: l.outer }
  else l

def closed (column : Int) : (indent : Int) → (outer : List Int) → List Token →
    Int × List Int × List Token
  | indent, [], tokens => (indent, [], tokens)
  | indent, o :: outer, tokens =>
    if column < indent then closed column o outer (.blockEnd :: tokens)
    else (indent, o :: outer, tokens)

def closeTo (column : Int) (l : Layout) : Layout :=
  if l.inFlow then l
  else
    let (indent, outer, tokens) := closed column l.indent l.outer l.tokens
    { l with indent, outer, tokens }

def dropKey? (l : Layout) : Option Layout :=
  if l.key.any PossibleKey.required then none else some { l with key := none }

def noteKey? (l : Layout) : Option Layout :=
  match l.source with
  | [] => some l
  | p :: _ =>
    if l.keyAllowed then
      l.dropKey?.map fun l' =>
        { l' with key := some ⟨!l.inFlow && l.indent = p.column, l.tokens.length, p⟩ }
    else some l

/-- A key ends on the line where it starts, and within 1024 characters. -/
def PossibleKey.expired (p : Placed) (k : PossibleKey) : Bool :=
  k.start.line < p.line || k.start.index + 1024 < p.index

def liveKey? (p : Placed) : Option PossibleKey → Option (Option PossibleKey)
  | none => some none
  | some k =>
    if PossibleKey.expired p k then (if k.required then none else some none) else some (some k)

def dropExpired? (p : Placed) (l : Layout) : Option Layout := do
  pure { l with key := ← liveKey? p l.key, outerKeys := ← l.outerKeys.mapM (liveKey? p) }

/-- Passes over blanks, comments and line breaks. A tab may not stand where a key may start. -/
def toToken (flow : Bool) : (keyAllowed comment : Bool) → Source → Bool × Source
  | allowed, _, [] => (allowed, [])
  | allowed, comment, p :: s =>
    if isBreak p.char then toToken flow (allowed || !flow) false s
    else if comment then toToken flow allowed true s
    else if p.char = ' ' || (p.char = '\t' && (flow || !allowed)) then toToken flow allowed false s
    else if p.char = '#' then toToken flow allowed true s
    else (allowed, p :: s)

def mark? (count : Nat) (t : Token) (allowed : Bool) (l : Layout) : Option Layout :=
  l.dropKey?.map fun l => ((l.allow allowed).skip count).push t

def documentMark? (t : Token) (l : Layout) : Option Layout := (l.closeTo (-1)).mark? 3 t false

def directive? (l : Layout) : Option Layout := do
  let l ← (l.closeTo (-1)).dropKey?
  let (t, rest) ← Token.readDirective? (l.source.drop 1)
  pure (((l.allow false).withRest rest).push t)

def openFlow? (t : Token) (l : Layout) : Option Layout := do
  let l ← l.noteKey?
  pure (({ l with key := none, outerKeys := l.key :: l.outerKeys, keyAllowed := true }.skip 1).push t)

def closeFlow? (t : Token) (l : Layout) : Option Layout := do
  let l ← l.dropKey?
  let l := match l.outerKeys with
    | [] => l
    | k :: outer => { l with key := k, outerKeys := outer }
  pure (((l.allow false).skip 1).push t)

def blockMark? (collection t : Token) (allowed : Bool) (l : Layout) : Option Layout :=
  if l.inFlow then l.mark? 1 t allowed
  else if l.keyAllowed then
    (l.openAt l.source.column l.tokens.length collection).mark? 1 t allowed
  else none

def value? (l : Layout) : Option Layout :=
  match l.key with
  | some k =>
    let l := (l.insert k.number .key).openAt k.start.column k.number .blockMapping
    some (({ l with key := none, keyAllowed := false }.skip 1).push .value)
  | none =>
    if l.inFlow then some (((l.allow false).skip 1).push .value)
    else if l.keyAllowed then
      let l := l.openAt l.source.column l.tokens.length .blockMapping
      some (((l.allow true).skip 1).push .value)
    else none

def keyToken? (read : Source → Option (Token × Source)) (l : Layout) : Option Layout := do
  let l ← l.noteKey?
  let (t, rest) ← read l.source
  pure (((l.allow false).withRest rest).push t)

def readAlias? (s : Source) : Option (Token × Source) :=
  (Token.readAnchor? (s.drop 1)).map fun (name, rest) => (.alias name, rest)

def readAnchor? (s : Source) : Option (Token × Source) :=
  (Token.readAnchor? (s.drop 1)).map fun (name, rest) => (.anchor name, rest)

def readTag? (flow : Bool) (s : Source) : Option (Token × Source) :=
  (Token.readTag? s).bind fun (t, rest) => if Token.closesTag flow rest then some (t, rest) else none

def readQuoted? (double : Bool) (s : Source) : Option (Token × Source) :=
  (quoted? double (s.drop 1)).map fun (text, rest) => (.scalar false text, rest)

def blockScalar? (literal : Bool) (l : Layout) : Option Layout := do
  let l ← l.dropKey?
  let (text, rest) ← block? literal l.indent (l.source.drop 1)
  pure (((l.allow true).withRest rest).push (.scalar false text))

def plainScalar? (l : Layout) : Option Layout := do
  let l ← l.noteKey?
  let scalar ← plain? l.inFlow (l.indent + 1) l.source
  pure (((l.allow scalar.crossed).withRest scalar.rest).push (.scalar true scalar.text))

def startsPlain (flow : Bool) (s : Source) : Bool :=
  match s with
  | [] => false
  | p :: _ =>
    let c := p.char
    if c = '-' then !((s.char? 1).any isSpaceOrTab)
    else if c = '?' || c = ':' then !flow && !s.gapAt 1
    else !(isGap c || ",[]\x7b\x7d#&*!|>'\"%@\x60".toList.contains c)

def token? (c : Char) (l : Layout) : Option Layout :=
  let s := l.source
  let gap := s.gapAt 1
  if s.column = 0 && c = '%' then l.directive?
  else if s.atDocumentMark "---".toList then l.documentMark? .documentStart
  else if s.atDocumentMark "...".toList then l.documentMark? .documentEnd
  else if c = '[' then l.openFlow? .flowSequence
  else if c = '{' then l.openFlow? .flowMapping
  else if c = ']' then l.closeFlow? .flowSequenceEnd
  else if c = '}' then l.closeFlow? .flowMappingEnd
  else if c = ',' then l.mark? 1 .flowEntry true
  else if c = '-' && gap then l.blockMark? .blockSequence .blockEntry true
  else if c = '?' && (l.inFlow || gap) then l.blockMark? .blockMapping .key (!l.inFlow)
  else if c = ':' && (l.inFlow || gap) then l.value?
  else if c = '*' then l.keyToken? readAlias?
  else if c = '&' then l.keyToken? readAnchor?
  else if c = '!' then l.keyToken? (readTag? l.inFlow)
  else if c = '|' && !l.inFlow then l.blockScalar? true
  else if c = '>' && !l.inFlow then l.blockScalar? false
  else if c = '\'' then l.keyToken? (readQuoted? false)
  else if c = '"' then l.keyToken? (readQuoted? true)
  else if startsPlain l.inFlow s then l.plainScalar?
  else none

def tokens? : Nat → Layout → Option (List Token)
  | 0, _ => none
  | fuel + 1, l =>
    let (allowed, rest) := toToken l.inFlow l.keyAllowed false l.source
    let l := (l.allow allowed).withRest rest
    match rest with
    | [] => ((l.closeTo (-1)).dropKey?).map fun l => l.tokens.reverse
    | p :: _ => do
      let l ← l.dropExpired? p
      let l ← (l.closeTo p.column).token? p.char
      tokens? fuel l

end Layout

def Token.ofText? (s : List Char) : Option (List Token) :=
  (Source.ofText? s).bind fun source => Layout.tokens? (source.length + 1) (Layout.start source)

end TopicHub.Yaml
