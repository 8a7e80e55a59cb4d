import TopicHub.Json.Value
import TopicHub.Text.Cut

/-!
Reading JSON text. Reading has two steps. The first checks the grammar and yields the document as
written: repeated keys, numerals and escapes that name no character are still there. The second
turns that form into a value and refuses what a value cannot hold. Records skip the second step for
members that they do not know.
-/

namespace TopicHub.Json

open TopicHub.Number TopicHub.Text

structure Numeral where
  negative : Bool
  whole : List Char
  fraction : Option (List Char)
  exponent : Option (Bool × List Char)
  deriving DecidableEq, Repr

/-- A document as written. A text that holds half of a surrogate pair has no content. -/
inductive Raw where
  | null
  | bool (b : Bool)
  | number (n : Numeral)
  | string (s : Option String)
  | array (items : List Raw)
  | object (fields : List (Option String × Raw))
  deriving Repr, Inhabited

def isJsonBlank (c : Char) : Bool := c = ' ' || c = '\n' || c = '\t' || c = '\r'

def skipBlank (s : List Char) : List Char := s.dropWhile isJsonBlank

def hexQuad? (a b c d : Char) : Option Nat := do
  let a ← hexDigit? a
  let b ← hexDigit? b
  let c ← hexDigit? c
  let d ← hexDigit? d
  pure (((a * 16 + b) * 16 + c) * 16 + d)

def shortEscape? : Char → Option Char
  | '"' => some '"'
  | '\\' => some '\\'
  | '/' => some '/'
  | 'b' => some '\x08'
  | 'f' => some '\x0c'
  | 'n' => some '\n'
  | 'r' => some '\r'
  | 't' => some '\t'
  | _ => none

def consChar (c : Char) : Option (Option (List Char) × List Char) →
    Option (Option (List Char) × List Char) :=
  Option.map fun (content, rest) => (content.map (c :: ·), rest)

def noContent : Option (Option (List Char) × List Char) →
    Option (Option (List Char) × List Char) :=
  Option.map fun (_, rest) => (none, rest)

def isLeadSurrogate (n : Nat) : Bool := 0xD800 ≤ n && n < 0xDC00

def isTrailSurrogate (n : Nat) : Bool := 0xDC00 ≤ n && n < 0xE000

def pairSurrogates (lead trail : Nat) : Char :=
  Char.ofNat (0x10000 + (lead - 0xD800) * 0x400 + (trail - 0xDC00))

def readString : List Char → Option (Option (List Char) × List Char)
  | '"' :: s => some (some [], s)
  | '\\' :: 'u' :: a :: b :: c :: d :: '\\' :: 'u' :: e :: f :: g :: h :: s =>
    match hexQuad? a b c d, hexQuad? e f g h with
    | some n, some m =>
      if isLeadSurrogate n && isTrailSurrogate m then consChar (pairSurrogates n m) (readString s)
      else if isLeadSurrogate n || isTrailSurrogate n then
        noContent (readString ('\\' :: 'u' :: e :: f :: g :: h :: s))
      else consChar (Char.ofNat n) (readString ('\\' :: 'u' :: e :: f :: g :: h :: s))
    | _, _ => none
  | '\\' :: 'u' :: a :: b :: c :: d :: s =>
    match hexQuad? a b c d with
    | some n =>
      if isLeadSurrogate n || isTrailSurrogate n then noContent (readString s)
      else consChar (Char.ofNat n) (readString s)
    | none => none
  | '\\' :: e :: s =>
    match shortEscape? e with
    | some c => consChar c (readString s)
    | none => none
  | c :: s => if c < ' ' || c = '\\' then none else consChar c (readString s)
  | [] => none

def readWhole : List Char → Option (List Char × List Char)
  | [] => none
  | c :: s =>
    if c = '0' then
      match s with
      | d :: _ => if isDigit d then none else some ([c], s)
      | [] => some ([c], s)
    else if isDigit c then some (c :: s.takeWhile isDigit, s.dropWhile isDigit)
    else none

def readDigits (s : List Char) : Option (List Char × List Char) :=
  let ds := s.takeWhile isDigit
  if ds.isEmpty then none else some (ds, s.dropWhile isDigit)

def readFraction : List Char → Option (Option (List Char) × List Char)
  | '.' :: s => (readDigits s).map fun (ds, rest) => (some ds, rest)
  | s => some (none, s)

def readExponent : List Char → Option (Option (Bool × List Char) × List Char)
  | e :: s =>
    if e = 'e' || e = 'E' then
      match s with
      | '-' :: t => (readDigits t).map fun (ds, rest) => (some (true, ds), rest)
      | '+' :: t => (readDigits t).map fun (ds, rest) => (some (false, ds), rest)
      | t => (readDigits t).map fun (ds, rest) => (some (false, ds), rest)
    else some (none, e :: s)
  | [] => some (none, [])

def readNumeral (s : List Char) : Option (Numeral × List Char) := do
  let (negative, s) := match s with
    | '-' :: t => (true, t)
    | t => (false, t)
  let (whole, s) ← readWhole s
  let (fraction, s) ← readFraction s
  let (exponent, s) ← readExponent s
  pure (⟨negative, whole, fraction, exponent⟩, s)

mutual
/-- A value and what follows it. The first argument bounds the nesting and the count of the members;
twice the length of the text is always enough. -/
def readValue : Nat → List Char → Option (Raw × List Char)
  | 0, _ => none
  | fuel + 1, s =>
    match skipBlank s with
    | [] => none
    | '"' :: t => (readString t).map fun (content, rest) => (.string (content.map String.ofList), rest)
    | '[' :: t =>
      match skipBlank t with
      | ']' :: rest => some (.array [], rest)
      | t => (readItems fuel t).map fun (items, rest) => (.array items, rest)
    | '{' :: t =>
      match skipBlank t with
      | '}' :: rest => some (.object [], rest)
      | t => (readFields fuel t).map fun (fields, rest) => (.object fields, rest)
    | c :: t =>
      if c = '-' || isDigit c then (readNumeral (c :: t)).map fun (n, rest) => (.number n, rest)
      else match after? "null".toList (c :: t), after? "true".toList (c :: t),
          after? "false".toList (c :: t) with
        | some rest, _, _ => some (.null, rest)
        | _, some rest, _ => some (.bool true, rest)
        | _, _, some rest => some (.bool false, rest)
        | none, none, none => none

def readItems : Nat → List Char → Option (List Raw × List Char)
  | 0, _ => none
  | fuel + 1, s =>
    match readValue fuel s with
    | none => none
    | some (item, rest) =>
      match skipBlank rest with
      | ']' :: rest => some ([item], rest)
      | ',' :: rest => (readItems fuel rest).map fun (items, rest) => (item :: items, rest)
      | _ => none

def readFields : Nat → List Char → Option (List (Option String × Raw) × List Char)
  | 0, _ => none
  | fuel + 1, s =>
    match skipBlank s with
    | '"' :: t =>
      match readString t with
      | none => none
      | some (key, rest) =>
        match skipBlank rest with
        | ':' :: rest =>
          match readValue fuel rest with
          | none => none
          | some (item, rest) =>
            match skipBlank rest with
            | '}' :: rest => some ([(key.map String.ofList, item)], rest)
            | ',' :: rest =>
              (readFields fuel rest).map fun (fields, rest) =>
                ((key.map String.ofList, item) :: fields, rest)
            | _ => none
        | _ => none
    | _ => none
end

def Raw.read? (text : String) : Option Raw :=
  let s := text.toList
  match readValue (2 * s.length + 2) s with
  | some (raw, rest) => if (skipBlank rest).isEmpty then some raw else none
  | none => none

/-- Digits taken up as long as the number that they spell fits 64 bits, and the digits left over. -/
def takeSignificant (n : Nat) : List Char → Nat × List Char
  | [] => (n, [])
  | c :: s =>
    let next := 10 * n + digitValue c
    if next < span64 then takeSignificant next s else (n, c :: s)

/-- `f * 10 ^ e` by one multiplication or division with the power of ten, or by several if the power
is below the range of the format. None if the value is too large. -/
def scaleTen? (f : Float) (e : Int) : Option Float :=
  if 0 ≤ e then
    if 308 < e then (if f == 0.0 then some f else none)
    else
      let g := f * ofDecimal 1 e
      if g.isInf then none else some g
  else if -308 ≤ e then some (f / ofDecimal 1 (-e))
  else if f == 0.0 || e < -2000 then some 0.0
  else scaleTen? (f / ofDecimal 1 308) (e + 308)
termination_by e.natAbs
decreasing_by omega

def Numeral.exponentValue (n : Numeral) : Int :=
  match n.exponent with
  | none => 0
  | some (negative, ds) =>
    let e : Int := min (natFrom 0 ds) (span31 : Int)
    if negative then -e else e

/-- The value of a numeral. Whole numbers within 64 bits are integers, and the integer zero has no
sign; of longer digits only those that fit 64 bits count. -/
def Numeral.value? (n : Numeral) : Option Number :=
  let signed (x : Float) := if n.negative then -x else x
  let (whole, excess) := takeSignificant 0 n.whole
  match n.fraction, n.exponent with
  | none, none =>
    if excess.isEmpty then
      if n.negative then
        if whole = 0 || span63 < whole then some (.float (-(Float.ofNat whole)))
        else some (.int (-whole))
      else some (.int whole)
    else (scaleTen? (Float.ofNat whole) excess.length).map fun x => .float (signed x)
  | fraction, _ =>
    let fraction := fraction.getD []
    let (digits, left) := takeSignificant whole fraction
    let taken : Int := (fraction.length - left.length : Nat)
    let e := excess.length - taken + n.exponentValue
    (scaleTen? (Float.ofNat digits) e).map fun x => .float (signed x)

mutual
def Raw.value? (depth : Nat) : Raw → Option Value
  | .null => some .null
  | .bool b => some (.bool b)
  | .number n => n.value?.map .number
  | .string s => s.map .string
  | .array items => if depth ≤ 1 then none else (valueList? (depth - 1) items).map .array
  | .object fields => if depth ≤ 1 then none else (valueFields? (depth - 1) fields []).map .object

def valueList? (depth : Nat) : List Raw → Option (List Value)
  | [] => some []
  | r :: rest =>
    match r.value? depth, valueList? depth rest with
    | some v, some vs => some (v :: vs)
    | _, _ => none

/-- The last of repeated keys wins and keeps the place of the first. -/
def valueFields? (depth : Nat) : List (Option String × Raw) → List (String × Value) →
    Option (List (String × Value))
  | [], done => some done
  | (key, r) :: rest, done =>
    match key, r.value? depth with
    | some key, some v => valueFields? depth rest (setField key v done)
    | _, _ => none
end

def depthLimit : Nat := 128

def Value.read? (text : String) : Option Value :=
  (Raw.read? text).bind (Raw.value? depthLimit)

end TopicHub.Json
