import TopicHub.Number.Exact
import TopicHub.Text.Cut

/-!
Values of SQL expressions, and what they count as where a number, a truth value or a text is wanted. A
decimal literal is scaled to its magnitude in steps of a hundred, ten and one powers of ten; after each
step the value is rounded to 64 significant bits, and at the end to the format of reals.
-/

namespace TopicHub.Sql

open Number Text

inductive Value where
  | null
  | integer (n : Int)
  | real (x : Float)
  | text (s : List Char)
  | blob (s : List Char)
  deriving Repr, Inhabited

/-- The value `m * 2 ^ q` with at most 64 significant bits. -/
structure Extended where
  m : Nat
  q : Int
  deriving DecidableEq, Repr

namespace Extended

def roundRatio (n d : Nat) : Nat :=
  let low := n / d
  let twice := 2 * (n % d)
  if twice < d || twice = d && low % 2 = 0 then low else low + 1

def rounded (n : Nat) (q : Int) : Extended :=
  if n < span64 then ⟨n, q⟩
  else
    let excess : Nat := n.log2 - 63
    ⟨roundRatio n (Nat.pow 2 excess), q + excess⟩

def mul (a b : Extended) : Extended := rounded (a.m * b.m) (a.q + b.q)

def powerOfTen (k : Nat) : Extended := rounded (Nat.pow 10 k) 0

def inverseOfTen (k : Nat) : Extended :=
  let shift : Nat := (Nat.pow 10 k).log2 + 64
  ⟨roundRatio (Nat.pow 2 shift) (Nat.pow 10 k), -shift⟩

def scaled (x : Extended) (step : Extended) : Nat → Extended
  | 0 => x
  | n + 1 => (x.mul step).scaled step n

def scaleTen (x : Extended) (e : Int) : Extended :=
  let n := e.natAbs
  let step := if 0 ≤ e then powerOfTen else inverseOfTen
  ((x.scaled (step 100) (n / 100)).scaled (step 10) (n % 100 / 10)).scaled (step 1) (n % 10)

def toFloat (x : Extended) : Float :=
  if (x.m.log2 : Int) + x.q < -1200 then 0.0
  else if 1024 ≤ (x.m.log2 : Int) + x.q then 1.0 / 0.0
  else
    let y := (Float.ofNat x.m).scaleB x.q
    if x.q < 0 then y
    else if (span53 - 1) * Nat.pow 2 971 < x.m * Nat.pow 2 x.q.toNat then 1.0 / 0.0
    else y

end Extended

def significandLimit : Nat := (span64 - 10) / 10

/-- Powers of ten move into the significand as long as it has room. -/
def absorb : (fuel : Nat) → (significand : Nat) → (e : Int) → Nat × Int
  | 0, s, e => (s, e)
  | fuel + 1, s, e =>
    if 0 < e && s < (span64 - 1) / 10 then absorb fuel (s * 10) (e - 1)
    else if e < 0 && s % 10 = 0 then absorb fuel (s / 10) (e + 1)
    else (s, e)

/-- The real nearest, with the roundings of the steps, to `significand * 10 ^ e`. -/
def decimalReal (significand : Nat) (e : Int) : Float :=
  if significand = 0 then 0.0
  else
    let (s, e) := absorb 24 significand e
    if e = 0 then Float.ofNat s else ((Extended.mk s 0).scaleTen e).toFloat

def isSpace (c : Char) : Bool := c = ' ' || ('\t' ≤ c && c ≤ '\x0d')

inductive Shape where
  | integer
  | real
  | realStart
  | other
  deriving DecidableEq, Repr

def wholeDigits (s : Nat) : List Char → Nat × Nat
  | [] => (s, 0)
  | c :: ds =>
    if s < significandLimit then wholeDigits (10 * s + digitValue c) ds else (s, ds.length + 1)

def fractionDigits (s taken : Nat) : List Char → Nat × Nat
  | [] => (s, taken)
  | c :: ds =>
    if s < significandLimit then fractionDigits (10 * s + digitValue c) (taken + 1) ds
    else (s, taken)

/-- The number at the start of a text, and the shape of the text. -/
def readReal (text : List Char) : Float × Shape :=
  let s := text.dropWhile isSpace
  let (negative, s) := match s with
    | '-' :: t => (true, t)
    | '+' :: t => (false, t)
    | t => (false, t)
  let whole := s.takeWhile isDigit
  let s := s.dropWhile isDigit
  let (hasPoint, fraction, s) := match s with
    | '.' :: t => (true, t.takeWhile isDigit, t.dropWhile isDigit)
    | t => (false, [], t)
  let (hasMark, exponentDigits, exponentNegative, s) := match s with
    | c :: t =>
      if c = 'e' || c = 'E' then
        match t with
        | '-' :: u => (true, u.takeWhile isDigit, true, u.dropWhile isDigit)
        | '+' :: u => (true, u.takeWhile isDigit, false, u.dropWhile isDigit)
        | u => (true, u.takeWhile isDigit, false, u.dropWhile isDigit)
      else (false, [], false, c :: t)
    | [] => (false, [], false, [])
  let (significand, left) := wholeDigits 0 whole
  let (significand, taken) := fractionDigits significand 0 fraction
  let e : Int := min 10000 (natFrom 0 exponentDigits)
  let e : Int := (if exponentNegative then -e else e) + left - taken
  let size := decimalReal significand e
  let hasDigits := !whole.isEmpty || 0 < taken
  let exponentOk := !hasMark || !exponentDigits.isEmpty
  let complete := (s.dropWhile isSpace).isEmpty && hasDigits && exponentOk
  let shape : Shape :=
    if complete then (if hasPoint || hasMark then .real else .integer)
    else if hasDigits && (hasPoint && hasMark || (hasPoint || hasMark) && exponentOk) then .realStart
    else .other
  (if negative then -size else size, shape)

inductive Fit where
  | exact
  | followed
  | tooLarge
  deriving DecidableEq, Repr

def readInteger (text : List Char) : Int × Fit :=
  let s := text.dropWhile isSpace
  let (negative, s) := match s with
    | '-' :: t => (true, t)
    | '+' :: t => (false, t)
    | t => (false, t)
  let ds := s.takeWhile isDigit
  let rest := s.dropWhile isDigit
  let n : Int := natFrom 0 ds
  let n := if negative then -n else n
  if !inInt64 n then (if negative then minInt else maxInt, .tooLarge)
  else if ds.isEmpty || !(rest.dropWhile isSpace).isEmpty then (n, .followed)
  else (n, .exact)

/-- Fifteen significant digits, half a unit of the last one rounded up, without zeros at the end. -/
def fifteenDigits (x : Float) : Decimal :=
  let b := Binary.ofFloat x
  if b.m = 0 then ⟨0, 0⟩
  else
    let e := b.scale - 15
    let low := b.floorAt e
    let n := if binaryLt (2 * b.m) b.q (2 * low + 1) e then low else low + 1
    let rec strip : Nat → Nat → Int → Decimal
      | 0, n, e => ⟨n, e⟩
      | fuel + 1, n, e => if n % 10 = 0 && n ≠ 0 then strip fuel (n / 10) (e + 1) else ⟨n, e⟩
    strip 16 n e

def exponentText (e : Int) : List Char :=
  let ds := digitChars e.natAbs
  (if e < 0 then '-' else '+') :: zeros (2 - ds.length) ++ ds

def realText (x : Float) : List Char :=
  let sign := if isNegative x then ['-'] else []
  if x.isInf then sign ++ "Inf".toList
  else
    let d := fifteenDigits x
    if d.digits = 0 then "0.0".toList
    else if -4 ≤ d.leading && d.leading ≤ 14 then sign ++ d.positional ['.', '0']
    else sign ++ d.mantissa ['.', '0'] ++ 'e' :: exponentText d.leading

namespace Value

def isNull : Value → Bool
  | .null => true
  | _ => false

def toReal : Value → Float
  | .null => 0.0
  | .integer n => ofInt n
  | .real x => x
  | .text s => (readReal s).1
  | .blob s => (readReal s).1

def toInteger : Value → Int
  | .null => 0
  | .integer n => n
  | .real x => toInt64 x
  | .text s => (readInteger s).1
  | .blob s => (readInteger s).1

def numberOfText (s : List Char) : Value :=
  let (x, shape) := readReal s
  let (n, fit) := readInteger s
  match shape with
  | .other => if fit = .tooLarge then .real x else .integer n
  | .integer => if fit = .exact then .integer n else .real x
  | .real | .realStart => .real x

def toNumber : Value → Value
  | .text s => numberOfText s
  | .blob s => numberOfText s
  | v => v

def chars : Value → List Char
  | .null => []
  | .integer n => intChars n
  | .real x => realText x
  | .text s => s
  | .blob s => s

def truth? : Value → Option Bool
  | .null => none
  | .integer n => some (n ≠ 0)
  | v => some !(v.toReal == 0.0)

def ofBool (b : Bool) : Value := .integer (if b then 1 else 0)

def ofTruth : Option Bool → Value
  | none => .null
  | some b => ofBool b

def ofReal (x : Float) : Value := if x.isNaN then .null else .real x

/-- An integer against a real, exactly. -/
def compareIntReal (n : Int) (x : Float) : Ordering :=
  if x.isInf then (if isNegative x then .gt else .lt)
  else
    let t := truncate x
    if n < t then .lt
    else if t < n then .gt
    else if isWhole x then .eq
    else if isNegative x then .gt else .lt

def compareReal (x y : Float) : Ordering := if x < y then .lt else if x == y then .eq else .gt

/-- Texts compare by their bytes, which is the order of their code points. -/
def compareChars : List Char → List Char → Ordering
  | [], [] => .eq
  | [], _ :: _ => .lt
  | _ :: _, [] => .gt
  | a :: s, b :: t => if a < b then .lt else if b < a then .gt else compareChars s t

def rank : Value → Nat
  | .null => 0
  | .integer _ | .real _ => 1
  | .text _ => 2
  | .blob _ => 3

def compare (a b : Value) : Ordering :=
  match a, b with
  | .integer n, .integer m => if n < m then .lt else if n = m then .eq else .gt
  | .integer n, .real x => compareIntReal n x
  | .real x, .integer n => (compareIntReal n x).swap
  | .real x, .real y => compareReal x y
  | .text s, .text t => compareChars s t
  | .blob s, .blob t => compareChars s t
  | a, b => if a.rank < b.rank then .lt else if a.rank = b.rank then .eq else .gt

end Value

end TopicHub.Sql
