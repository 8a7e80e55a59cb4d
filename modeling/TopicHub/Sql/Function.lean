import TopicHub.Sql.Pattern
import TopicHub.Sql.Syntax

/-!
The functions that SQL expressions may call. Angles are in degrees.
-/

namespace TopicHub.Sql

open Number Text

def isAggregate (name : String) (count : Nat) : Bool :=
  count = 1 && ["count", "sum", "total", "avg", "max", "min", "group_concat", "string_agg"].contains name

def arity? (name : String) : Option (Nat × Option Nat) :=
  match name with
  | "abs" | "avg" | "cos" | "hex" | "length" | "likely" | "lower" | "octet_length" | "quote" | "sign"
  | "sin" | "sqrt" | "sum" | "tan" | "total" | "typeof" | "unicode" | "unlikely" | "upper" =>
    some (1, some 1)
  | "count" => some (0, some 1)
  | "glob" | "ifnull" | "instr" | "nullif" | "power" => some (2, some 2)
  | "group_concat" | "ltrim" | "round" | "rtrim" | "trim" => some (1, some 2)
  | "like" | "substr" | "substring" => some (2, some 3)
  | "iif" | "replace" => some (3, some 3)
  | "char" => some (0, none)
  | "concat" | "max" | "min" => some (1, none)
  | "coalesce" | "concat_ws" => some (2, none)
  | _ => none

def accepts (name : String) (count : Nat) : Bool :=
  match arity? name with
  | some (low, some high) => low ≤ count && count ≤ high
  | some (low, none) => low ≤ count
  | none => false

def number? : Value → Option Float
  | .integer n => some (ofInt n)
  | .real x => some x
  | _ => none

/-- Noise behind the twelfth place is cut off, so that right angles give whole values. -/
def denoise (x : Float) : Float := (x * 1e12).round / 1e12

def radians (x : Float) : Float := x * (3.14159265358979323846264338327950288 / 180.0)

def small (v : Value) : Int := v.toInteger.bmod span32

/-- The characters of a text from a position on. Positions start at one and count from the end if they
are negative; a negative length takes characters in front of the position. -/
def substring (s : List Char) (start : Int) (length : Option Int) : List Char :=
  let negative := length.any (· < 0)
  let count : Int := (length.map fun n => (n.natAbs : Int)).getD (s.length + 1)
  let (start, count) : Int × Int :=
    if start < 0 then
      let start := start + s.length
      if start < 0 then (0, max 0 (count + start)) else (start, count)
    else if 0 < start then (start - 1, count)
    else (0, if 0 < count then count - 1 else count)
  let (start, count) : Int × Int :=
    if negative then
      let before := start - count
      if before < 0 then (0, count + before) else (before, count)
    else (start, count)
  (s.drop start.toNat).take count.toNat

def positionOf (text word : List Char) : Int :=
  match cut? word text with
  | some (before, _) => before.length + 1
  | none => 0

/-- The digits of a value with `places` behind the point, half a unit rounded away from zero. -/
def roundPlaces (x : Float) (places : Nat) : Float :=
  let b := Binary.ofFloat x
  let e : Int := -places
  let low := b.floorAt e
  let n := if binaryLt (2 * b.m) b.q (2 * low + 1) e then low else low + 1
  let size := ofDecimal n e
  if isNegative x then -size else size

def fractionLimit : Float := 4503599627370496.0

def round (x : Float) (places : Int) : Float :=
  if x < -fractionLimit || fractionLimit < x || !isFinite x then x
  else if places ≤ 0 then ofInt (toInt64 (x + (if x < 0.0 then -0.5 else 0.5)))
  else roundPlaces x (min places 30).toNat

def hexDigitUpper (n : Nat) : Char :=
  if n < 10 then Char.ofNat ('0'.toNat + n) else Char.ofNat ('A'.toNat + (n - 10))

def hexText (s : List Char) : List Char :=
  (String.ofList s).toUTF8.toList.flatMap fun b => [hexDigitUpper (b.toNat / 16), hexDigitUpper (b.toNat % 16)]

def quoteText : Value → List Char
  | .null => "NULL".toList
  | .text s => '\'' :: s.flatMap (fun c => if c = '\'' then ['\'', '\''] else [c]) ++ ['\'']
  | .blob s => 'X' :: '\'' :: hexText s ++ ['\'']
  | v => v.chars

def trimWith (left right : Bool) (set s : List Char) : List Char :=
  let s := if left then s.dropWhile set.contains else s
  if right then trimEndWhile set.contains s else s

def best (least : Bool) : Value → List Value → Value
  | v, [] => v
  | v, w :: rest =>
    let order := v.compare w
    let takes := if least then order != .lt else order == .lt
    best least (if takes then w else v) rest

def charOf (v : Value) : Char :=
  let n := v.toInteger
  if n < 0 || 0x10FFFF < n then '\uFFFD'
  else if h : n.toNat.isValidChar then Char.ofNatAux n.toNat h else '\uFFFD'

def typeName : Value → String
  | .null => "null"
  | .integer _ => "integer"
  | .real _ => "real"
  | .text _ => "text"
  | .blob _ => "blob"

def numeric? : Value → Option Value
  | .integer n => some (.integer n)
  | .real x => some (.real x)
  | .text s =>
    match readReal s with
    | (x, .integer) => some (match readInteger s with
      | (n, .exact) => .integer n
      | _ => .real x)
    | (x, .real) => some (.real x)
    | _ => none
  | _ => none

def signOf (v : Value) : Value :=
  match numeric? v with
  | some (.integer n) => .integer (if n < 0 then -1 else if 0 < n then 1 else 0)
  | some (.real x) => .integer (if x < 0.0 then -1 else if 0.0 < x then 1 else 0)
  | _ => .null

def sumOf (v : Value) : Value :=
  match v, numeric? v with
  | .null, _ => .null
  | _, some (.integer n) => .integer n
  | v, _ => .real v.toReal

def onTexts (args : List Value) (f : List (List Char) → Value) : Value :=
  if args.any Value.isNull then .null else f (args.map Value.chars)

def applyFunction (name : String) (args : List Value) : Option Value :=
  match name, args with
  | "abs", [.null] => some .null
  | "abs", [.integer n] => if n = minInt then none else some (.integer n.natAbs)
  | "abs", [v] => some (.real v.toReal.abs)
  | "char", vs => some (.text (vs.map charOf))
  | "concat", vs => some (.text (vs.flatMap Value.chars))
  | "concat_ws", sep :: vs =>
    some (if sep.isNull then .null
      else .text (List.intercalate sep.chars ((vs.filter fun v => !v.isNull).map Value.chars)))
  | "nullif", [a, b] => some (if a.compare b == .eq then .null else a)
  | "hex", [v] => some (.text (hexText v.chars))
  | "instr", vs => some (onTexts vs fun
    | [s, w] => .integer (positionOf s w)
    | _ => .null)
  | "length", [.null] => some .null
  | "length", [.blob s] => some (.integer (utf8Size s))
  | "length", [v] => some (.integer (v.chars.takeWhile (· ≠ '\x00')).length)
  | "octet_length", [v] => some (if v.isNull then .null else .integer (utf8Size v.chars))
  | "like", [_, _, .null] => some .null
  | "like", [p, v, e] =>
    match e.chars with
    | [c] => some (onTexts [p, v] fun
      | [p, s] => .ofBool (Pattern.like (some c) p s)
      | _ => .null)
    | _ => none
  | "like", vs => some (onTexts vs fun
    | [p, s] => .ofBool (Pattern.like none p s)
    | _ => .null)
  | "glob", vs => some (onTexts vs fun
    | [p, s] => .ofBool (Pattern.glob p s)
    | _ => .null)
  | "lower", vs => some (onTexts vs fun ss => .text (ss.flatten.map Char.toLower))
  | "upper", vs => some (onTexts vs fun ss => .text (ss.flatten.map Char.toUpper))
  | "trim", vs => some (trimmed true true vs)
  | "ltrim", vs => some (trimmed true false vs)
  | "rtrim", vs => some (trimmed false true vs)
  | "max", v :: vs => some (if (v :: vs).any Value.isNull then .null else best false v vs)
  | "min", v :: vs => some (if (v :: vs).any Value.isNull then .null else best true v vs)
  | "quote", [v] => some (.text (quoteText v))
  | "replace", vs => some (onTexts vs fun
    | [s, old, new] => .text (Text.replace old new s)
    | _ => .null)
  | "round", [v] => some (if v.isNull then .null else .ofReal (round v.toReal 0))
  | "round", [v, n] =>
    some (if v.isNull || n.isNull then .null else .ofReal (round v.toReal (small n)))
  | "sign", [v] => some (signOf v)
  | "substr", vs | "substring", vs =>
    some (if vs.any Value.isNull then .null
      else match vs with
        | [v, p] => .text (substring v.chars (small p) none)
        | [v, p, n] => .text (substring v.chars (small p) (some (small n)))
        | _ => .null)
  | "typeof", [v] => some (.text (typeName v).toList)
  | "unicode", [v] => some (match v.chars with
    | [] => .null
    | c :: _ => .integer c.toNat)
  | "likely", [v] | "unlikely", [v] => some v
  | "sin", [v] => (number? v).map fun x => .ofReal (denoise (radians x).sin)
  | "cos", [v] => (number? v).map fun x => .ofReal (denoise (radians x).cos)
  | "tan", [v] => (number? v).map fun x => .ofReal (denoise (radians x).tan)
  | "sqrt", [v] => (number? v).map fun x => .ofReal x.sqrt
  | "power", [a, b] =>
    match number? a, number? b with
    | some x, some y => some (.ofReal (x ^ y))
    | _, _ => none
  | "count", [] => some (.integer 1)
  | "count", [v] => some (.integer (if v.isNull then 0 else 1))
  | "sum", [v] => some (sumOf v)
  | "total", [v] => some (.real v.toReal)
  | "avg", [v] => some (if v.isNull then .null else .real v.toReal)
  | "group_concat", v :: _ => some (if v.isNull then .null else .text v.chars)
  | _, _ => none
where
  trimmed (left right : Bool) (vs : List Value) : Value :=
    onTexts vs fun
      | [s] => .text (trimWith left right [' '] s)
      | [s, set] => .text (trimWith left right set s)
      | _ => .null

end TopicHub.Sql
