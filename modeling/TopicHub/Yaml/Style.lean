import TopicHub.Json.Writer
import TopicHub.Yaml.Scalar
import TopicHub.Yaml.Source

/-!
The written form of scalars: plain where that reads back as the same string, otherwise in quotes, and
strings of several lines as blocks.
-/

namespace TopicHub.Yaml

open TopicHub.Number (Binary intChars intText isNegative)

/-- The fewest digits that read back. Positional from `1e-5` to below `1e16`, with `.0` behind a whole
value; an exponent without a plus sign otherwise. -/
def realText (x : Float) : String :=
  if x.isNaN then ".nan"
  else
    let sign := if isNegative x then ['-'] else []
    if x.isInf then String.ofList (sign ++ ".inf".toList)
    else
      let d := (Binary.ofFloat x).shortest .toEven
      let body :=
        if d.digits = 0 then "0.0".toList
        else if -5 ≤ d.leading && d.leading < 16 then d.positional ['.', '0']
        else d.mantissa [] ++ 'e' :: intChars d.leading
      String.ofList (sign ++ body)

def Number.text : Number → String
  | .int n => intText n
  | .float x => realText x

def boolWords : List String :=
  ["y", "Y", "yes", "Yes", "YES", "n", "N", "no", "No", "NO", "true", "True", "TRUE", "false",
    "False", "FALSE", "on", "On", "ON", "off", "Off", "OFF"]

/-- Whether a string would be read as something else without quotes. -/
def isAmbiguous (s : List Char) : Bool :=
  (boolWords.any fun w => s = w.toList) || isPaddedDigits s ||
    match Value.ofPlain? s with
    | some (.string _) => false
    | _ => true

def isPrintable (c : Char) : Bool :=
  let n := c.toNat
  n = 0x0A || (0x20 ≤ n && n ≤ 0x7E) || (0xA0 ≤ n && n ≠ 0xFEFF && n ≠ 0xFFFE && n ≠ 0xFFFF)

def gapFirst (s : List Char) : Bool :=
  match s with
  | [] => true
  | c :: _ => isGap c

def hasInnerMark : (gap : Bool) → List Char → Bool
  | _, [] => false
  | gap, c :: s => (c = ':' && gapFirst s) || (c = '#' && gap) || hasInnerMark (isGap c) s

def hasMark (s : List Char) : Bool :=
  match s with
  | [] => false
  | c :: rest =>
    "#,[]\x7b\x7d&*!|>'\"%@\x60".toList.contains c || ((c = '?' || c = ':' || c = '-') && gapFirst rest)
      || "---".toList.isPrefixOf s || "...".toList.isPrefixOf s || hasInnerMark (isGap c) rest

def hasPair (p q : Char → Bool) : List Char → Bool
  | c :: d :: s => (p c && q d) || hasPair p q (d :: s)
  | _ => false

def isSpace (c : Char) : Bool := c = ' '

inductive Style where
  | plain
  | single
  | double
  | block
  deriving DecidableEq, Repr

/-- The style of a string. Only double quotes hold everything. -/
def styleOf (s : List Char) : Style :=
  let special := s.any fun c => !isPrintable c
  let spaceBreak := hasPair isSpace isBreak s
  let breakSpace := hasPair isBreak isSpace s
  let endsIn (p : Char → Bool) : Bool := s.getLast?.any p
  if s.contains '\n' then
    if special || spaceBreak || endsIn isSpace then .double else .block
  else
    let outer := s.head?.any (fun c => isSpace c || isBreak c) || endsIn fun c => isSpace c || isBreak c
    let plain := !(isAmbiguous s || outer || special || s.any isBreak || hasMark s)
    if plain then .plain
    else if special || spaceBreak || breakSpace then .double
    else .single

def upperHexDigit (n : Nat) : Char := (Json.hexDigitChar n).toUpper

def hexDigits : (count : Nat) → Nat → List Char
  | 0, _ => []
  | n + 1, code => hexDigits n (code / 16) ++ [upperHexDigit (code % 16)]

def shortEscapes : List (Char × Char) := [
  ('\x00', '0'), ('\x07', 'a'), ('\x08', 'b'), ('\t', 't'), ('\n', 'n'), ('\x0b', 'v'),
  ('\x0c', 'f'), ('\r', 'r'), ('\x1b', 'e'), ('"', '"'), ('\\', '\\'), ('\u0085', 'N'),
  ('\u00a0', '_'), ('\u2028', 'L'), ('\u2029', 'P')]

def escaped (c : Char) : List Char :=
  match shortEscapes.find? fun e => e.1 = c with
  | some (_, d) => ['\\', d]
  | none =>
    let n := c.toNat
    if n ≤ 0xFF then '\\' :: 'x' :: hexDigits 2 n
    else if n ≤ 0xFFFF then '\\' :: 'u' :: hexDigits 4 n
    else '\\' :: 'U' :: hexDigits 8 n

def doubleChar (c : Char) : List Char :=
  if !isPrintable c || isBreak c || c = '"' || c = '\\' then escaped c else [c]

def singleChar (c : Char) : List Char := if c = '\'' then ['\'', '\''] else [c]

def chompMark (s : List Char) : List Char :=
  match s.reverse with
  | [] => ['-']
  | [c] => if isBreak c then ['+'] else ['-']
  | c :: d :: _ => if !isBreak c then ['-'] else if isBreak d then ['+'] else []

def blockLines (indent : Nat) : (atStart : Bool) → List Char → List Char
  | _, [] => []
  | atStart, c :: s =>
    if isBreak c then c :: blockLines indent true s
    else (if atStart then List.replicate indent ' ' else []) ++ c :: blockLines indent false s

def blockText (indent : Nat) (s : List Char) : List Char :=
  let given := if s.head?.any (fun c => isSpace c || isBreak c) then ['2'] else []
  '|' :: given ++ chompMark s ++ '\n' :: blockLines indent true s

def stringText (indent : Nat) (s : List Char) : List Char :=
  match styleOf s with
  | .plain => s
  | .single => '\'' :: s.flatMap singleChar ++ ['\'']
  | .double => '"' :: s.flatMap doubleChar ++ ['"']
  | .block => blockText indent s

end TopicHub.Yaml
