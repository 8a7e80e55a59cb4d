import TopicHub.Json.Value

/-!
Writing JSON: on one line without blanks, or with a line for each member and an indentation of two.
-/

namespace TopicHub.Json

open TopicHub.Number

/-- The fewest digits that read back. Positional from `1e-5` to below `1e16`, with `.0` behind a whole
value; an exponent with its sign otherwise. -/
def floatText (x : Float) : String :=
  let sign := if isNegative x then ['-'] else []
  let d := (Binary.ofFloat x).shortest .toEven
  let body :=
    if d.digits = 0 then "0.0".toList
    else if -5 ≤ d.leading && d.leading < 16 then d.positional ['.', '0']
    else d.mantissa [] ++ 'e' :: (if 0 ≤ d.leading then ['+'] else []) ++ intChars d.leading
  String.ofList (sign ++ body)

def Number.text : Number → String
  | .int n => intText n
  | .float x => floatText x

def hexDigitChar (n : Nat) : Char :=
  if n < 10 then Char.ofNat ('0'.toNat + n) else Char.ofNat ('a'.toNat + (n - 10))

def escapeChar (c : Char) : List Char :=
  if c = '"' then ['\\', '"']
  else if c = '\\' then ['\\', '\\']
  else if c = '\n' then ['\\', 'n']
  else if c = '\r' then ['\\', 'r']
  else if c = '\t' then ['\\', 't']
  else if c = '\x08' then ['\\', 'b']
  else if c = '\x0c' then ['\\', 'f']
  else if c < ' ' then
    ['\\', 'u', '0', '0', hexDigitChar (c.toNat / 16), hexDigitChar (c.toNat % 16)]
  else [c]

def quoted (s : String) : List Char := '"' :: s.toList.flatMap escapeChar ++ ['"']

mutual
def writeCompact : Value → List Char
  | .null => "null".toList
  | .bool b => (if b then "true" else "false").toList
  | .number n => n.text.toList
  | .string s => quoted s
  | .array items => '[' :: compactItems true items ++ [']']
  | .object fields => '{' :: compactFields true fields ++ ['}']

def compactItems (first : Bool) : List Value → List Char
  | [] => []
  | v :: rest => (if first then [] else [',']) ++ writeCompact v ++ compactItems false rest

def compactFields (first : Bool) : List (String × Value) → List Char
  | [] => []
  | (k, v) :: rest =>
    (if first then [] else [',']) ++ quoted k ++ ':' :: writeCompact v ++ compactFields false rest
end

def Value.compact (v : Value) : String := String.ofList (writeCompact v)

def newLine (indent : Nat) : List Char := '\n' :: List.replicate (2 * indent) ' '

mutual
def writePretty (indent : Nat) : Value → List Char
  | .null => "null".toList
  | .bool b => (if b then "true" else "false").toList
  | .number n => n.text.toList
  | .string s => quoted s
  | .array [] => ['[', ']']
  | .array (v :: rest) =>
    '[' :: prettyItems (indent + 1) true (v :: rest) ++ newLine indent ++ [']']
  | .object [] => ['{', '}']
  | .object (f :: rest) =>
    '{' :: prettyFields (indent + 1) true (f :: rest) ++ newLine indent ++ ['}']

def prettyItems (indent : Nat) (first : Bool) : List Value → List Char
  | [] => []
  | v :: rest =>
    (if first then [] else [',']) ++ newLine indent ++ writePretty indent v ++
      prettyItems indent false rest

def prettyFields (indent : Nat) (first : Bool) : List (String × Value) → List Char
  | [] => []
  | (k, v) :: rest =>
    (if first then [] else [',']) ++ newLine indent ++ quoted k ++ ':' :: ' ' ::
      writePretty indent v ++ prettyFields indent false rest
end

def Value.pretty (v : Value) : String := String.ofList (writePretty 0 v)

end TopicHub.Json
