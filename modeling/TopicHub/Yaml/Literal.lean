import TopicHub.Number.Exact
import TopicHub.Yaml.Source

/-!
Block scalars: lines that are indented further than what surrounds them, taken as they are or folded.
-/

namespace TopicHub.Yaml

open Number

inductive Chomping where
  | strip
  | clip
  | keep
  deriving DecidableEq, Repr

structure BlockHeader where
  chomping : Chomping
  increment : Nat

def chompingOf? (c : Char) : Option Chomping :=
  if c = '+' then some .keep else if c = '-' then some .strip else none

def readIncrement? (s : Source) : Option (Nat × Source) :=
  match s with
  | [] => some (0, s)
  | p :: rest =>
    if isDigit p.char then (if p.char = '0' then none else some (digitValue p.char, rest))
    else some (0, s)

def readChomping (s : Source) : Option Chomping × Source :=
  match s with
  | [] => (none, s)
  | p :: rest =>
    match chompingOf? p.char with
    | some c => (some c, rest)
    | none => (none, s)

def readHeader? (s : Source) : Option (BlockHeader × Source) := do
  let (before, s) := readChomping s
  let (increment, s) ← readIncrement? s
  let (chomping, s) := match before with
    | some c => (some c, s)
    | none => if increment = 0 then (none, s) else readChomping s
  let s := s.dropBlanks
  let s := if s.char? 0 = some '#' then s.dropLine else s
  match s with
  | [] => pure (⟨chomping.getD .clip, increment⟩, [])
  | p :: rest => if isBreak p.char then pure (⟨chomping.getD .clip, increment⟩, rest) else none

structure BlankLines where
  breaks : List Char
  widest : Nat
  rest : Source

/-- Passes over indentation and empty lines. While the indentation is open, which zero says, all
spaces belong to it. A tab in its place is refused. -/
def readBlankLines? (indent : Nat) (breaks : List Char) (widest : Nat) : Source → Option BlankLines
  | [] => some ⟨breaks, widest, []⟩
  | p :: s =>
    let inside := indent = 0 || p.column < indent
    let widest := max widest p.column
    if inside && p.char = ' ' then readBlankLines? indent breaks widest s
    else if inside && p.char = '\t' then none
    else if isBreak p.char then readBlankLines? indent (breaks ++ [p.char]) widest s
    else some ⟨breaks, widest, p :: s⟩

structure BlockLines where
  text : List Char
  ending : List Char
  breaks : List Char
  indented : Bool
  rest : Source

def BlockLines.joint (literal : Bool) (b : BlockLines) (nextIndented : Bool) : List Char :=
  if !literal && b.ending = ['\n'] && !b.indented && !nextIndented then
    (if b.breaks.isEmpty then [' '] else b.breaks)
  else b.ending ++ b.breaks

def readBlockLines? (literal : Bool) (indent : Nat) : Nat → BlockLines → Option BlockLines
  | 0, _ => none
  | fuel + 1, b =>
    match b.rest with
    | [] => some b
    | p :: s =>
      if p.column ≠ indent then some b
      else do
        let blank := isSpaceOrTab p.char
        let line := Source.text ((p :: s).takeWhile fun q => !isBreak q.char)
        let after := Source.dropLine (p :: s)
        let next ← readBlankLines? indent [] 0 (after.drop 1)
        readBlockLines? literal indent fuel
          ⟨b.text ++ b.joint literal blank ++ line, Source.text (after.take 1), next.breaks, blank,
            next.rest⟩

/-- A block scalar behind its mark, within an indentation that is minus one outside of all
collections. -/
def block? (literal : Bool) (outer : Int) (s : Source) : Option (List Char × Source) := do
  let (header, s) ← readHeader? s
  let given := if header.increment = 0 then 0 else outer.toNat + header.increment
  let first ← readBlankLines? given [] 0 s
  let indent := if given = 0 then max (max first.widest (outer + 1).toNat) 1 else given
  let b ← readBlockLines? literal indent (s.length + 1) ⟨[], [], first.breaks, false, first.rest⟩
  let ending := match header.chomping with
    | .strip => []
    | .clip => b.ending
    | .keep => b.ending ++ b.breaks
  pure (b.text ++ ending, b.rest)

end TopicHub.Yaml
