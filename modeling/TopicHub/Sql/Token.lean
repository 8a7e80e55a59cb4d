import TopicHub.Sql.Value

/-!
Tokens of SQL expressions. Blanks and comments separate tokens; a comment that is not closed runs to the
end.
-/

namespace TopicHub.Sql

open Number Text

inductive Symbol where
  | lparen
  | rparen
  | comma
  | semicolon
  | dot
  | plus
  | minus
  | star
  | slash
  | percent
  | equal
  | notEqual
  | less
  | lessOrEqual
  | greater
  | greaterOrEqual
  | shiftLeft
  | shiftRight
  | ampersand
  | bar
  | tilde
  deriving DecidableEq, Repr

inductive Token where
  | symbol (s : Symbol)
  | integer (n : Nat)
  | hex (n : Nat)
  | real (x : Float)
  | text (s : List Char)
  | blob (s : List Char)
  | word (s : String)
  | quoted (double : Bool) (s : List Char)
  deriving Repr, Inhabited

def isWordPart (c : Char) : Bool := c.isAlphanum || c = '_' || c = '$' || 0x80 ≤ c.toNat

def isWordStart (c : Char) : Bool := c.isAlpha || c = '_' || 0x80 ≤ c.toNat

/-- Blanks that start white space; a vertical tab only continues it. -/
def isSpaceStart (c : Char) : Bool := c ≠ '\x0b' && (isSpace c || c = '\uFEFF')

def afterComment : List Char → List Char
  | [] => []
  | '*' :: '/' :: s => s
  | _ :: s => afterComment s

def readQuoted (mark : Char) : List Char → Option (List Char × List Char)
  | [] => none
  | c :: s =>
    if c = mark then
      match s with
      | d :: t =>
        if d = mark then (readQuoted mark t).map fun (content, rest) => (mark :: content, rest)
        else some ([], d :: t)
      | [] => some ([], [])
    else (readQuoted mark s).map fun (content, rest) => (c :: content, rest)

/-- Digits without the underscores between them; none if an underscore has no digit on either side. -/
def withoutUnderscores (isDigit : Char → Bool) (previous : Option Char) : List Char →
    Option (List Char)
  | [] => some []
  | c :: s =>
    if c = '_' then
      if previous.any isDigit && s.head?.any isDigit then withoutUnderscores isDigit (some c) s
      else none
    else (withoutUnderscores isDigit (some c) s).map (c :: ·)

def isHexDigit (c : Char) : Bool := (hexDigit? c).isSome

def hexFrom (n : Nat) : List Char → Nat
  | [] => n
  | c :: s => hexFrom (16 * n + (hexDigit? c).getD 0) s

def digitRun (s : List Char) : List Char × List Char :=
  (s.takeWhile fun c => isDigit c || c = '_', s.dropWhile fun c => isDigit c || c = '_')

def readExponent (s : List Char) : Option ((Bool × List Char) × List Char) :=
  match s with
  | c :: t =>
    if c = 'e' || c = 'E' then
      let (negative, u) := match t with
        | '-' :: u => (true, u)
        | '+' :: u => (false, u)
        | u => (false, u)
      if u.head?.any isDigit then
        let (ds, rest) := digitRun u
        some ((negative, ds), rest)
      else none
    else none
  | [] => none

def readNumber (s : List Char) : Option (Token × List Char) :=
  let isHexRun (c : Char) : Bool := isHexDigit c || c = '_'
  match s with
  | '0' :: x :: d :: t =>
    if (x = 'x' || x = 'X') && isHexDigit d then
      let rest := t.dropWhile isHexRun
      if rest.head?.any isWordPart then none
      else (withoutUnderscores isHexDigit none (d :: t.takeWhile isHexRun)).bind fun ds =>
        if 16 < (ds.dropWhile (· = '0')).length then none else some (.hex (hexFrom 0 ds), rest)
    else decimal s
  | s => decimal s
where
  decimal (s : List Char) : Option (Token × List Char) :=
    let (whole, s) := digitRun s
    let (fraction, s) := match s with
      | '.' :: t => (some (digitRun t).1, (digitRun t).2)
      | t => (none, t)
    let (exponent, s) := match readExponent s with
      | some (e, rest) => (some e, rest)
      | none => (none, s)
    if s.head?.any isWordPart then none
    else
      let clean := withoutUnderscores isDigit none
      match clean whole, clean (fraction.getD []), clean ((exponent.map (·.2)).getD []) with
      | some whole, some digits, some eDigits =>
        if fraction.isNone && exponent.isNone then some (.integer (natFrom 0 whole), s)
        else
          let mark := if (exponent.map (·.1)).getD false then "e-".toList else "e+".toList
          let tail := if eDigits.isEmpty then [] else mark ++ eDigits
          some (.real (readReal (whole ++ '.' :: digits ++ tail)).1, s)
      | _, _, _ => none

def bytesOf? : List Char → Option (List Nat)
  | [] => some []
  | a :: b :: s =>
    match hexDigit? a, hexDigit? b, bytesOf? s with
    | some a, some b, some bytes => some ((16 * a + b) :: bytes)
    | _, _, _ => none
  | [_] => none

/-- The characters of bytes below 128; other bytes are replaced. -/
def blobChars (bytes : List Nat) : List Char :=
  bytes.map fun b => if b < 128 then Char.ofNat b else '\uFFFD'

def readSymbol : List Char → Option (Symbol × List Char)
  | '(' :: s => some (.lparen, s)
  | ')' :: s => some (.rparen, s)
  | ',' :: s => some (.comma, s)
  | ';' :: s => some (.semicolon, s)
  | '.' :: s => some (.dot, s)
  | '+' :: s => some (.plus, s)
  | '-' :: '>' :: _ => none
  | '-' :: s => some (.minus, s)
  | '*' :: s => some (.star, s)
  | '/' :: s => some (.slash, s)
  | '%' :: s => some (.percent, s)
  | '=' :: '=' :: s => some (.equal, s)
  | '=' :: s => some (.equal, s)
  | '!' :: '=' :: s => some (.notEqual, s)
  | '<' :: '>' :: s => some (.notEqual, s)
  | '<' :: '=' :: s => some (.lessOrEqual, s)
  | '<' :: '<' :: s => some (.shiftLeft, s)
  | '<' :: s => some (.less, s)
  | '>' :: '=' :: s => some (.greaterOrEqual, s)
  | '>' :: '>' :: s => some (.shiftRight, s)
  | '>' :: s => some (.greater, s)
  | '&' :: s => some (.ampersand, s)
  | '|' :: '|' :: _ => none
  | '|' :: s => some (.bar, s)
  | '~' :: s => some (.tilde, s)
  | _ => none

def step : List Char → Option (Option Token × List Char)
  | [] => none
  | '-' :: '-' :: s => some (none, s.dropWhile (· ≠ '\n'))
  | '/' :: '*' :: c :: s => some (none, afterComment (c :: s))
  | '\'' :: s => (readQuoted '\'' s).map fun (content, rest) => (some (.text content), rest)
  | '"' :: s => (readQuoted '"' s).map fun (content, rest) => (some (.quoted true content), rest)
  | '\x60' :: s => (readQuoted '\x60' s).map fun (content, rest) => (some (.quoted false content), rest)
  | '[' :: s => (cut? [']'] s).map fun (content, rest) => (some (.quoted false content), rest)
  | c :: s =>
    if isSpaceStart c then some (none, s.dropWhile isSpace)
    else if isDigit c || c = '.' && s.head?.any isDigit then
      (readNumber (c :: s)).map fun (t, rest) => (some t, rest)
    else if isWordStart c then
      match c = 'x' || c = 'X', s with
      | true, '\'' :: t =>
        match readQuoted '\'' t with
        | some (content, rest) =>
          (bytesOf? content).map fun bytes => (some (.blob (blobChars bytes)), rest)
        | none => none
      | _, _ =>
        let word := (c :: s).takeWhile isWordPart
        some (some (.word (String.ofList (word.map Char.toLower))), (c :: s).dropWhile isWordPart)
    else (readSymbol (c :: s)).map fun (m, rest) => (some (.symbol m), rest)

/-- The tokens of a text up to a semicolon, which ends what is read. None if something is no token. The
first argument bounds the number of steps; the length of the text is always enough. -/
def tokensFrom : Nat → List Char → Option (List Token)
  | _, [] => some []
  | 0, _ :: _ => none
  | fuel + 1, c :: s =>
    match step (c :: s) with
    | none => none
    | some (none, rest) => tokensFrom fuel rest
    | some (some (.symbol .semicolon), _) => some []
    | some (some t, rest) => (tokensFrom fuel rest).map (t :: ·)

def tokens (text : List Char) : Option (List Token) :=
  let s := text.takeWhile (· ≠ '\x00')
  tokensFrom s.length s

end TopicHub.Sql
