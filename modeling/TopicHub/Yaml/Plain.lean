import TopicHub.Yaml.Folding

/-!
Plain scalars: words without quotes, which may go over several lines as long as those are indented.
-/

namespace TopicHub.Yaml

def isFlowMark (c : Char) : Bool := c = ',' || c = '[' || c = ']' || c = '{' || c = '}'

/-- Whether a plain scalar ends here: in front of a colon with a gap behind it, and within brackets in
front of a mark of theirs. -/
def endsPlain (flow : Bool) (s : Source) : Bool :=
  match s with
  | [] => true
  | p :: _ => (p.char = ':' && s.gapAt 1) || (flow && isFlowMark p.char)

def refusesColon (flow : Bool) (s : Source) : Bool :=
  flow && s.char? 0 = some ':' &&
    match s.char? 1 with
    | some c => isFlowMark c || c = '?'
    | none => false

def readPlainWord? (flow : Bool) : Source → Option (List Char × Source)
  | [] => some ([], [])
  | p :: s =>
    if isGap p.char then some ([], p :: s)
    else if refusesColon flow (p :: s) then none
    else if endsPlain flow (p :: s) then some ([], p :: s)
    else (readPlainWord? flow s).map fun (w, rest) => (p.char :: w, rest)

structure PlainScalar where
  text : List Char
  crossed : Bool
  rest : Source

/-- Goes on behind a word, where `before` was read before the gap in front of it. A line that is
indented less than `indent` ends the scalar. The first argument bounds the number of words. -/
def readPlain? (flow : Bool) (indent : Int) :
    Nat → (before : List Char) → Gap → Source → Option PlainScalar
  | 0, _, _, _ => none
  | fuel + 1, before, gap, s =>
    if s.atAnyDocumentMark || s.char? 0 = some '#' then some ⟨before, gap.crossed, s⟩
    else do
      let (word, rest) ← readPlainWord? flow s
      if word.isEmpty then pure ⟨before, gap.crossed, rest⟩
      else
        let text := before ++ gap.text ++ word
        match rest with
        | [] => pure ⟨text, false, []⟩
        | p :: _ =>
          if !isGap p.char then pure ⟨text, false, rest⟩
          else
            let refuses (p : Placed) : Bool := p.char = '\t' && (p.column : Int) < indent
            let (next, after) ← Gap.read? refuses .empty rest
            if !flow && (after.column : Int) < indent then pure ⟨text, next.crossed, after⟩
            else readPlain? flow indent fuel text next after

def plain? (flow : Bool) (indent : Int) (s : Source) : Option PlainScalar :=
  readPlain? flow indent (s.length + 1) [] .empty s

end TopicHub.Yaml
