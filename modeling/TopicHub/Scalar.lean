import TopicHub.Json.Reader
import TopicHub.Number.Exact

/-!
Values of arithmetic and logical expressions.
-/

namespace TopicHub

open Number Text

inductive Scalar where
  | null
  | bool (b : Bool)
  | integer (n : Int)
  | real (x : Float)
  | text (s : String)
  deriving Repr, Inhabited

namespace Scalar

def numberOf? (s : String) : Option Float := float? (trim s.toList)

/-- Whether a value counts as a match. Of the numbers zero does not, and not a number only as text;
texts count if they read as such a number or as the word for true. -/
def isTruthy : Scalar → Bool
  | .null => false
  | .bool b => b
  | .integer n => n ≠ 0
  | .real x => !(x == 0.0) && !x.isNaN
  | .text s =>
    (trim s.toList).map Char.toLower = "true".toList ||
      match numberOf? s with
      | some x => !(x == 0.0)
      | none => false

def toFloat? : Scalar → Option Float
  | .null => none
  | .bool b => some (if b then 1.0 else 0.0)
  | .integer n => some (ofInt n)
  | .real x => some x
  | .text s => numberOf? s

def isNull : Scalar → Bool
  | .null => true
  | _ => false

/-- Whole reals below `1e15` are written as integers, without a sign on zero. -/
def display : Scalar → String
  | .null => ""
  | .bool b => if b then "true" else "false"
  | .integer n => intText n
  | .real x => if isWhole x && x.abs < 1e15 then intText (truncate x) else plainText x
  | .text s => s

/-- Integers beyond 64 bits become reals; arrays and objects are no scalars. -/
def ofJson? : Json.Value → Option Scalar
  | .null => some .null
  | .bool b => some (.bool b)
  | .number (.int n) => some (if inInt64 n then .integer n else .real (ofInt n))
  | .number (.float x) => some (.real x)
  | .string s => some (.text s)
  | _ => none

end Scalar

end TopicHub
