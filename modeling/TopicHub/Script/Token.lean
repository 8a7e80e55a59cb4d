import TopicHub.Script.Value
import TopicHub.Text.Cut

/-!
Tokens of scripts. Some combinations of marks are reserved and make the whole text unreadable.
-/

namespace TopicHub.Script

open Number Text

inductive Token where
  | int (n : Int)
  | float (x : Float)
  | char (c : Char)
  | string (s : List Char)
  | word (s : String)
  | mark (s : String)
  deriving Repr, Inhabited

def isSpace (c : Char) : Bool := isBlank c

def isWordStart (c : Char) : Bool := c.isAlpha || c = '_'

def isWordPart (c : Char) : Bool := c.isAlphanum || c = '_'

def reservedMarks : List String :=
  ["===", "!==", "**=", "<<=", ">>=", "++", "--", "->", "<-", "=>", ":=", "::", "..", "+=", "-=",
    "*=", "/=", "%=", "&=", "|=", "^=", "??", "?.", "(*", "*)"]

def marks : List String :=
  ["**", "==", "!=", "<=", ">=", "&&", "||", "<<", ">>", "(", ")", "[", "]", "\x7b", "\x7d", ",", ";", ".",
    "+", "-", "*", "/", "%", "<", ">", "!", "&", "|", "^", "="]

def reservedWords : List String :=
  ["as", "async", "await", "break", "case", "catch", "continue", "default", "do", "exit", "export",
    "for", "go", "goto", "import", "in", "is", "loop", "match", "module", "new", "nil", "null",
    "package", "private", "protected", "public", "shared", "spawn", "static", "super", "switch",
    "sync", "this", "thread", "try", "until", "use", "var", "void", "while", "with", "yield"]

def afterFirst? (words : List String) (s : List Char) : Option (String × List Char) :=
  words.findSome? fun w => (after? w.toList s).map fun rest => (w, rest)

/-- What follows the end of a comment; comments may be nested and need not be closed. -/
def afterComment : (depth : Nat) → List Char → List Char
  | _, [] => []
  | depth, '/' :: '*' :: s => afterComment (depth + 1) s
  | depth, '*' :: '/' :: s => if depth ≤ 1 then s else afterComment (depth - 1) s
  | depth, _ :: s => afterComment depth s

def hexValue? (ds : List Char) : Option Nat :=
  if ds.isEmpty then none
  else ds.foldl (fun n c => do pure (16 * (← n) + (← hexDigit? c))) (some 0)

def charOf? (n : Nat) : Option Char :=
  if h : n.isValidChar then some (Char.ofNatAux n h) else none

def readEscape : List Char → Option (Char × List Char)
  | 'x' :: s => coded 2 s
  | 'u' :: s => coded 4 s
  | 'U' :: s => coded 8 s
  | 'n' :: s => some ('\n', s)
  | 'r' :: s => some ('\r', s)
  | 't' :: s => some ('\t', s)
  | '\\' :: s => some ('\\', s)
  | '"' :: s => some ('"', s)
  | '\'' :: s => some ('\'', s)
  | '\x60' :: s => some ('\x60', s)
  | _ => none
where
  coded (count : Nat) (s : List Char) : Option (Char × List Char) :=
    if s.length < count then none
    else ((hexValue? (s.take count)).bind charOf?).map fun c => (c, s.drop count)

/-- The content of quotes, and what follows. The first argument bounds the length. A mark is written
twice inside of quotes, and only some quotes may hold a line break. -/
def readQuoted (mark : Char) (lines : Bool) : Nat → List Char → Option (List Char × List Char)
  | 0, _ => none
  | fuel + 1, s =>
    match s with
    | [] => none
    | c :: s =>
      if c = mark then
        match s with
        | d :: t =>
          if d = mark then
            (readQuoted mark lines fuel t).map fun (content, rest) => (mark :: content, rest)
          else some ([], d :: t)
        | [] => some ([], [])
      else if c = '\\' && !lines then
        match readEscape s with
        | some (c, rest) =>
          (readQuoted mark lines fuel rest).map fun (content, rest) => (c :: content, rest)
        | none => none
      else if c = '\n' && !lines then none
      else (readQuoted mark lines fuel s).map fun (content, rest) => (c :: content, rest)

def isDigitOrBar (c : Char) : Bool := isDigit c || c = '_'

def digits (s : List Char) : List Char := s.filter (· ≠ '_')

def wholeToken (ds : List Char) : Token :=
  let n : Int := natFrom 0 ds
  if inInt64 n then .int n else .float ((float? ds).getD 0.0)

def radixToken? (base : Nat) (ds : List Char) : Option Token :=
  let value := ds.foldl (fun n c => do
    let d ← hexDigit? c
    if d < base then pure (base * (← n) + d) else none) (some 0)
  if ds.isEmpty then none
  else value.bind fun n => if n < span63 then some (.int n) else none

def radix? (c : Char) : Option Nat :=
  if c = 'x' || c = 'X' then some 16
  else if c = 'o' || c = 'O' then some 8
  else if c = 'b' || c = 'B' then some 2
  else none

/-- The part of a number behind the point, if there is one. A point in front of a name or of another
point belongs to what follows. -/
def readFraction : List Char → Option (List Char) × List Char
  | '.' :: c :: s =>
    if isDigit c then
      (some (digits ((c :: s).takeWhile isDigitOrBar)), (c :: s).dropWhile isDigitOrBar)
    else if c = '_' || c = '.' || isWordStart c then (none, '.' :: c :: s)
    else (some ['0'], c :: s)
  | s => (none, s)

def readExponent : List Char → Option (List Char) × List Char
  | 'e' :: '+' :: s => (some (digits (s.takeWhile isDigitOrBar)), s.dropWhile isDigitOrBar)
  | 'e' :: '-' :: s => (some ('-' :: digits (s.takeWhile isDigitOrBar)), s.dropWhile isDigitOrBar)
  | 'e' :: c :: s =>
    if isDigit c then
      (some (digits ((c :: s).takeWhile isDigitOrBar)), (c :: s).dropWhile isDigitOrBar)
    else (none, 'e' :: c :: s)
  | s => (none, s)

def readDecimal (s : List Char) : Option (Token × List Char) :=
  let whole := digits (s.takeWhile isDigitOrBar)
  let (fraction, s) := readFraction (s.dropWhile isDigitOrBar)
  let (exponent, s) := readExponent s
  if fraction.isNone && exponent.isNone then some (wholeToken whole, s)
  else
    let mantissa := whole ++ (match fraction with
      | some ds => '.' :: ds
      | none => [])
    let text := match exponent with
      | some e => mantissa ++ 'e' :: e
      | none => mantissa
    (float? text).map fun x => (.float x, s)

def readNumber (s : List Char) : Option (Token × List Char) :=
  match s with
  | '0' :: x :: t =>
    match radix? x with
    | some base =>
      let isPart (c : Char) : Bool := (hexDigit? c).any (· < base) || c = '_'
      (radixToken? base (digits (t.takeWhile isPart))).map fun token => (token, t.dropWhile isPart)
    | none => readDecimal s
  | s => readDecimal s

def step : List Char → Option (Option Token × List Char)
  | [] => none
  | '/' :: '/' :: s => some (none, s.dropWhile (· ≠ '\n'))
  | '/' :: '*' :: s => some (none, afterComment 1 s)
  | c :: s =>
    if isSpace c then some (none, s)
    else if c = '"' then
      (readQuoted '"' false (s.length + 1) s).map fun (content, rest) => (some (.string content), rest)
    else if c = '\x60' then
      match readQuoted '\x60' true (s.length + 1) s with
      | some (content, rest) =>
        if contains content ['$', '{'] then none else some (some (.string content), rest)
      | none => none
    else if c = '\'' then
      match readQuoted '\'' false (s.length + 1) s with
      | some ([c], rest) => some (some (.char c), rest)
      | _ => none
    else if isDigit c then (readNumber (c :: s)).map fun (t, rest) => (some t, rest)
    else if isWordStart c then
      let word := (c :: s).takeWhile isWordPart
      let name := String.ofList word
      if word.any Char.isAlpha && !reservedWords.contains name then
        some (some (.word name), s.dropWhile isWordPart)
      else none
    else if (afterFirst? reservedMarks (c :: s)).isSome then none
    else (afterFirst? marks (c :: s)).map fun (m, rest) => (some (.mark m), rest)

def tokensFrom : Nat → List Char → Option (List Token)
  | _, [] => some []
  | 0, _ :: _ => none
  | fuel + 1, c :: s =>
    match step (c :: s) with
    | none => none
    | some (none, rest) => tokensFrom fuel rest
    | some (some t, rest) => (tokensFrom fuel rest).map (t :: ·)

def tokens (text : List Char) : Option (List Token) := tokensFrom text.length text

end TopicHub.Script
