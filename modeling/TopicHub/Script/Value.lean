import TopicHub.Number.Exact
import TopicHub.Text.Blank

/-!
Values of scripts and their texts.
-/

namespace TopicHub.Script

open Number

inductive Value where
  | unit
  | bool (b : Bool)
  | int (n : Int)
  | float (x : Float)
  | char (c : Char)
  | string (s : List Char)
  | array (items : List Value)
  deriving Repr, Inhabited

def scientificText (x : Float) : List Char :=
  let d := (Binary.ofFloat x).shortest .up
  (if isNegative x then ['-'] else []) ++ d.mantissa [] ++ 'e' :: intChars d.leading

/-- Whole values keep a point. Values beyond thirteen places have an exponent. -/
def floatText (x : Float) : List Char :=
  let size := x.abs
  if size == 0.0 then "0.0".toList
  else if x.isNaN || x.isInf then (plainText x).toList
  else if 1e13 < size || size < 1e-13 then scientificText x
  else (plainText x).toList ++ (if isWhole x then ".0".toList else [])

def floatItemText (x : Float) : List Char :=
  let size := x.abs
  if size == 0.0 then (if isNegative x then "-0.0".toList else "0.0".toList)
  else if x.isNaN || x.isInf then (plainText x).toList
  else if 1e16 ≤ size || size < 1e-5 then scientificText x
  else (plainText x).toList ++ (if isWhole x then ".0".toList else [])

def escapedIn (quote : Char) (c : Char) : List Char :=
  if c = quote || c = '\\' then ['\\', c]
  else if c = '\n' then ['\\', 'n']
  else if c = '\r' then ['\\', 'r']
  else if c = '\t' then ['\\', 't']
  else if c = '\x00' then ['\\', '0']
  else [c]

namespace Value

mutual
def itemText : Value → List Char
  | .unit => "()".toList
  | .bool b => (if b then "true" else "false").toList
  | .int n => intChars n
  | .float x => floatItemText x
  | .char c => '\'' :: escapedIn '\'' c ++ ['\'']
  | .string s => '"' :: s.flatMap (escapedIn '"') ++ ['"']
  | .array items => '[' :: itemsText true items ++ [']']

def itemsText (first : Bool) : List Value → List Char
  | [] => []
  | v :: rest => (if first then [] else [',', ' ']) ++ v.itemText ++ itemsText false rest
end

def text : Value → List Char
  | .unit => []
  | .float x => floatText x
  | .char c => [c]
  | .string s => s
  | v => v.itemText

def typeName : Value → String
  | .unit => "()"
  | .bool _ => "bool"
  | .int _ => "i64"
  | .float _ => "f64"
  | .char _ => "char"
  | .string _ => "string"
  | .array _ => "array"

end Value

end TopicHub.Script
