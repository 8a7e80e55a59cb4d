import TopicHub.Number.Span
import TopicHub.Text.Blank

/-!
Reading numbers from text, and the operations on floating-point values that go through their exact
integer form.
-/

namespace TopicHub.Number

def isDigit (c : Char) : Bool := '0' ≤ c && c ≤ '9'

def digitValue (c : Char) : Nat := c.toNat - '0'.toNat

def natFrom (n : Nat) : List Char → Nat
  | [] => n
  | c :: s => natFrom (10 * n + digitValue c) s

def hexDigit? (c : Char) : Option Nat :=
  if isDigit c then some (digitValue c)
  else if 'a' ≤ c && c ≤ 'f' then some (c.toNat - 'a'.toNat + 10)
  else if 'A' ≤ c && c ≤ 'F' then some (c.toNat - 'A'.toNat + 10)
  else none

/-- `digits * 10 ^ exp`, rounded to the nearest value, a tie to even. Far outside the range of the
format the power of ten is not computed. -/
def ofDecimal (digits : Nat) (exp : Int) : Float :=
  if digits = 0 then 0.0
  else
    let leading := (digits.log2 * 30103 / 100000 : Nat) + exp
    if 320 < leading then 1.0 / 0.0
    else if leading < -400 then 0.0
    else Float.ofScientific digits (exp < 0) exp.natAbs

def isDigitRun (s : List Char) : Bool := !s.isEmpty && s.all isDigit

def exponent? : List Char → Option Int
  | [] => some 0
  | e :: s =>
    if e = 'e' || e = 'E' then
      match s with
      | '-' :: ds => if isDigitRun ds then some (-(natFrom 0 ds : Int)) else none
      | '+' :: ds => if isDigitRun ds then some (natFrom 0 ds : Int) else none
      | ds => if isDigitRun ds then some (natFrom 0 ds : Int) else none
    else none

def unsignedFloat? (s : List Char) : Option Float :=
  let whole := s.takeWhile isDigit
  let rest := s.dropWhile isDigit
  let (fraction, tail) := match rest with
    | '.' :: r => (r.takeWhile isDigit, r.dropWhile isDigit)
    | r => ([], r)
  if whole.isEmpty && fraction.isEmpty then none
  else (exponent? tail).map fun e => ofDecimal (natFrom 0 (whole ++ fraction)) (e - fraction.length)

/-- A decimal number with an optional sign, or one of the words for infinity and for not a number, in
any letter case. Blanks are not skipped. -/
def float? (s : List Char) : Option Float :=
  let (negative, body) := match s with
    | '-' :: r => (true, r)
    | '+' :: r => (false, r)
    | r => (false, r)
  let word := String.ofList (body.map Char.toLower)
  let value :=
    if word = "inf" || word = "infinity" then some (1.0 / 0.0)
    else if word = "nan" then some (0.0 / 0.0)
    else unsignedFloat? body
  value.map fun x => if negative then -x else x

def minInt : Int := -(span63 : Int)

def maxInt : Int := span63 - 1

def inInt64 (n : Int) : Bool := minInt ≤ n && n ≤ maxInt

end TopicHub.Number
