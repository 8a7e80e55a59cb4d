import TopicHub.Number.Exact

/-!
JSON documents. Objects keep the order in which their keys first arrived, and numbers written
without a fraction or an exponent stay integers as long as they fit 64 bits, signed or unsigned.
-/

namespace TopicHub.Json

inductive Number where
  | int (n : Int)
  | float (x : Float)
  deriving DecidableEq, Repr

inductive Value where
  | null
  | bool (b : Bool)
  | number (n : Number)
  | string (s : String)
  | array (items : List Value)
  | object (fields : List (String × Value))
  deriving BEq, Repr, Inhabited

def lookup? {α : Type} (key : String) : List (String × α) → Option α
  | [] => none
  | (k, v) :: rest => if k = key then some v else lookup? key rest

/-- A key that is present keeps its place and takes the new value; a new key goes to the end. -/
def setField {α : Type} (key : String) (value : α) : List (String × α) → List (String × α)
  | [] => [(key, value)]
  | (k, v) :: rest => if k = key then (k, value) :: rest else (k, v) :: setField key value rest

def Value.field? (key : String) : Value → Option Value
  | .object fields => lookup? key fields
  | _ => none

def int (n : Int) : Value := .number (.int n)

def ofOption : Option String → Value
  | some s => .string s
  | none => .null

def objectOf (fields : List (String × Option Value)) : Value :=
  .object (fields.filterMap fun (k, v) => v.map (k, ·))

end TopicHub.Json
