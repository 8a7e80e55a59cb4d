import TopicHub.Number.Exact
import TopicHub.Text.Cut
import TopicHub.Yaml.Value

/-!
Scalars as values. A plain scalar is null, a truth value, an integer, a real or a string, in this
order; quotes and other tags make a string of it.
-/

namespace TopicHub.Yaml

open Text
open TopicHub.Number (span63 span64 span127 span128 isDigit hexDigit? natFrom float?)

def isNullWord (s : List Char) : Bool :=
  ["null", "Null", "NULL", "~"].any fun w => s = w.toList

def bool? (s : List Char) : Option Bool :=
  if ["true", "True", "TRUE"].any fun w => s = w.toList then some true
  else if ["false", "False", "FALSE"].any fun w => s = w.toList then some false
  else none

def withoutSign : List Char → List Char
  | '-' :: s => s
  | '+' :: s => s
  | s => s

def isPaddedDigits (s : List Char) : Bool :=
  match withoutSign s with
  | '0' :: c :: rest => (c :: rest).all isDigit
  | _ => false

def radixValue? (base : Nat) (s : List Char) : Option Nat :=
  if s.isEmpty then none
  else s.foldl (fun n c => do
    let d ← hexDigit? c
    if d < base then pure (base * (← n) + d) else none) (some 0)

def magnitude? (s : List Char) : Option Nat :=
  match s with
  | '0' :: 'x' :: ds => radixValue? 16 ds
  | '0' :: 'o' :: ds => radixValue? 8 ds
  | '0' :: 'b' :: ds => radixValue? 2 ds
  | ds => if !ds.isEmpty && ds.all isDigit && !isPaddedDigits ds then some (natFrom 0 ds) else none

def integer? (s : List Char) : Option Int :=
  match s with
  | '-' :: ds => (magnitude? ds).map fun n => -(n : Int)
  | '+' :: ds => (magnitude? ds).map fun n => (n : Int)
  | ds => (magnitude? ds).map fun n => (n : Int)

def real? (s : List Char) : Option Float :=
  let unsigned := match s with
    | '+' :: r => r
    | r => r
  let isWord (words : List String) (t : List Char) : Bool := words.any fun w => t = w.toList
  if isWord [".inf", ".Inf", ".INF"] unsigned then some (1.0 / 0.0)
  else if isWord ["-.inf", "-.Inf", "-.INF"] s then some (-1.0 / 0.0)
  else if isWord [".nan", ".NaN", ".NAN"] s then some (0.0 / 0.0)
  else
    match s with
    | '+' :: '+' :: _ => none
    | '+' :: '-' :: _ => none
    | _ => (float? s).bind fun x => if x.isFinite then some x else none

def inRange (n : Int) : Bool := -(span63 : Int) ≤ n && n < span64

/-- The bounds of 128 bits, signed below and unsigned above. -/
def inWideRange (n : Int) : Bool := -(span127 : Int) ≤ n && n < span128

namespace Value

def ofReal (s : List Char) : Value :=
  if isPaddedDigits s then .string (String.ofList s)
  else
    match real? s with
    | some x => .number (.float x)
    | none => .string (String.ofList s)

/-- An integer that needs more than 64 bits is refused, and one that needs more than 128 bits is a
real. -/
def ofPlain? (s : List Char) : Option Value :=
  if s.isEmpty || isNullWord s then some .null
  else
    match bool? s with
    | some b => some (.bool b)
    | none =>
      match integer? s with
      | some n =>
        if inRange n then some (.number (.int n))
        else if inWideRange n then none
        else some (ofReal s)
      | none => some (ofReal s)

def ofUntagged? (isPlain : Bool) (s : List Char) : Option Value :=
  if isPlain then ofPlain? s else some (.string (String.ofList s))

def dropMark : List Char → List Char
  | '!' :: c :: s => c :: s
  | s => s

def tagName? (tag : Option (List Char)) : Option String :=
  match tag with
  | some ('!' :: s) => some (String.ofList (dropMark (dropMark ('!' :: s))))
  | _ => none

def withTag (tag : Option (List Char)) (v : Value) : Value :=
  match tagName? tag with
  | some name => .tagged name v
  | none => v

def coreTag (name : String) : List Char := ("tag:yaml.org,2002:" ++ name).toList

/-- A standard tag asks for its type; other tags of that kind make a string. -/
def ofScalar? (tag : Option (List Char)) (isPlain : Bool) (s : List Char) : Option Value :=
  match tag with
  | none => ofUntagged? isPlain s
  | some t =>
    if (tagName? tag).isSome then (ofUntagged? isPlain s).map (withTag tag)
    else if t = coreTag "bool" then (bool? s).map .bool
    else if t = coreTag "int" then
      (integer? s).bind fun n => if inRange n then some (.number (.int n)) else none
    else if t = coreTag "float" then (real? s).map fun x => .number (.float x)
    else if t = coreTag "null" then (if isNullWord s then some .null else none)
    else some (.string (String.ofList s))

end Value

end TopicHub.Yaml
