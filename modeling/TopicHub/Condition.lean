import TopicHub.Json.Writer
import TopicHub.Number.Exact
import TopicHub.Record

/-!
Condition objects: an operator and a value that a payload is compared with. Such an object is written
as JSON, with single quotes if need be.
-/

namespace TopicHub

open Json Number Text

structure Condition where
  operator : String
  value : String
  deriving DecidableEq, Repr

namespace Condition

def fieldName : String → String
  | "Operator" => "operator"
  | "Value" => "value"
  | name => name

def renamed : Raw → Raw
  | .object fields => .object (fields.map fun (k, v) => (k.map fieldName, v))
  | d => d

/-- A value that is no text is taken as it is written; null is the empty text. -/
def valueText : Value → String
  | .string s => s
  | .null => ""
  | v => v.compact

def ofRaw? (depth : Nat) (d : Raw) : Option Condition := do
  let s ← Slots.ofDocument? ["operator", "value"] (renamed d)
  pure {
    operator := ← s.withDefault? "operator" "" Document.text?
    value := ← s.withDefault? "value" "" fun d => (d.value? (depth - 1)).map valueText }

/-- A text is read as it stands or, if that fails, with its single quotes made double. -/
def readLenient? {α : Type} (read : Raw → Option α) (text : String) : Option α :=
  let swapped := text.toList.map fun c => if c = '\'' then '"' else c
  ((Raw.read? text).bind read).or ((Raw.read? (String.ofList swapped)).bind read)

def read? (text : String) : Option Condition := readLenient? (ofRaw? depthLimit) text

def readList? (text : String) : Option (List Condition) :=
  readLenient? (Document.listOf? (ofRaw? (depthLimit - 1))) text

def number? (s : List Char) : Option Float := (float? (trim s)).filter isFinite

/-- Whether a payload satisfies a condition. A comparison by size needs numbers on both sides; an empty
operator or value and an unknown operator are never satisfied. -/
def holds (c : Condition) (payload : String) : Bool :=
  let operator := c.operator.trimBlank
  let payload := trim payload.toList
  let value := c.value.toList
  let compare (test : Float → Float → Bool) : Bool :=
    match number? payload, number? value with
    | some p, some v => test p v
    | _, _ => false
  if operator.isEmpty || c.value.isEmpty then false
  else match operator.lowercase with
    | "contains" => containsIgnoreCase payload value
    | "contains not" => !containsIgnoreCase payload value
    | ">" => compare fun p v => v < p
    | "<" => compare fun p v => p < v
    | ">=" => compare fun p v => v ≤ p
    | "<=" => compare fun p v => p ≤ v
    | "=" | "==" =>
      match number? payload, number? value with
      | some p, some v => p == v
      | none, some _ => false
      | _, none => payload = value
    | "%" => compare fun p v => !(v == 0.0) && !(remainder p v == 0.0)
    | _ => false

def anyHolds (conditions : List Condition) (payload : String) : Bool :=
  conditions.any fun c => c.holds payload

end Condition

end TopicHub
