import TopicHub.Number.Exact
import TopicHub.Yaml.Folding

/-!
Quoted scalars. Between single quotes only the quote itself is written in another way, namely twice;
between double quotes a backslash starts an escape.
-/

namespace TopicHub.Yaml

open Number

def hexValue? (s : List Char) : Option Nat :=
  s.foldl (fun n c => do pure (16 * (← n) + (← hexDigit? c))) (some 0)

def shortEscape? (c : Char) : Option Char :=
  let table : List (Char × Char) := [
    ('0', '\x00'), ('a', '\x07'), ('b', '\x08'), ('t', '\t'), ('\t', '\t'), ('n', '\n'),
    ('v', '\x0b'), ('f', '\x0c'), ('r', '\r'), ('e', '\x1b'), (' ', ' '), ('"', '"'), ('/', '/'),
    ('\\', '\\'), ('N', '\u0085'), ('_', '\u00a0'), ('L', '\u2028'), ('P', '\u2029')]
  (table.find? fun e => e.1 = c).map Prod.snd

def codeLength? (c : Char) : Option Nat :=
  if c = 'x' then some 2 else if c = 'u' then some 4 else if c = 'U' then some 8 else none

def readEscape? : Source → Option (Char × Source)
  | [] => none
  | p :: s =>
    match shortEscape? p.char, codeLength? p.char with
    | some c, _ => some (c, s)
    | none, some n =>
      if s.length < n then none
      else (hexValue? (Source.text (s.take n))).bind fun code =>
        if h : code.isValidChar then some (Char.ofNatAux code h, s.drop n) else none
    | none, none => none

structure Word where
  text : List Char
  escaped : Bool
  rest : Source

def Word.push (c : Char) (w : Word) : Word := { w with text := c :: w.text }

def readWord? (double : Bool) : Nat → Source → Option Word
  | 0, _ => none
  | _, [] => some ⟨[], false, []⟩
  | fuel + 1, p :: s =>
    if isGap p.char then some ⟨[], false, p :: s⟩
    else if double then
      if p.char = '"' then some ⟨[], false, p :: s⟩
      else if p.char = '\\' then
        match s with
        | [] => none
        | q :: t =>
          if isBreak q.char then some ⟨[], true, t⟩
          else (readEscape? s).bind fun (c, rest) =>
            (readWord? double fuel rest).map (Word.push c)
      else (readWord? double fuel s).map (Word.push p.char)
    else if p.char = '\'' then
      match s with
      | [] => some ⟨[], false, p :: s⟩
      | q :: t =>
        if q.char = '\'' then (readWord? double fuel t).map (Word.push '\'')
        else some ⟨[], false, p :: s⟩
    else (readWord? double fuel s).map (Word.push p.char)

/-- The content behind the opening quote, and what follows the closing one. A mark of a document may
not start a line of it. The first argument bounds the number of words. -/
def readQuoted? (double : Bool) : Nat → Source → Option (List Char × Source)
  | 0, _ => none
  | fuel + 1, s => do
    if s.atAnyDocumentMark || s.isEmpty then none
    let w ← readWord? double (s.length + 1) s
    let quote := if double then '"' else '\''
    if w.rest.char? 0 = some quote then pure (w.text, w.rest.drop 1)
    else
      let (gap, rest) ← Gap.read? (fun _ => false) (if w.escaped then .escaped else .empty) w.rest
      let (more, rest) ← readQuoted? double fuel rest
      pure (w.text ++ gap.text ++ more, rest)

def quoted? (double : Bool) (s : Source) : Option (List Char × Source) :=
  readQuoted? double (s.length + 1) s

end TopicHub.Yaml
