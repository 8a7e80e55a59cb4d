import TopicHub.Json.Value

/-!
YAML documents. Mappings keep the order of their keys, keys may be any values, and values may carry
tags.
-/

namespace TopicHub.Yaml

inductive Number where
  | int (n : Int)
  | float (x : Float)
  deriving Repr, Inhabited

def Number.same : Number → Number → Bool
  | .int a, .int b => a == b
  | .float a, .float b => (a.isNaN && b.isNaN) || a == b
  | _, _ => false

inductive Value where
  | null
  | bool (b : Bool)
  | number (n : Number)
  | string (s : String)
  | sequence (items : List Value)
  | mapping (entries : List (Value × Value))
  | tagged (tag : String) (value : Value)
  deriving Repr, Inhabited

namespace Value

mutual
/-- Whether two values are the same key. The order of the entries of a mapping does not count. -/
def same : Value → Value → Bool
  | .null, .null => true
  | .bool a, .bool b => a == b
  | .number a, .number b => a.same b
  | .string a, .string b => a == b
  | .sequence a, .sequence b => sameItems a b
  | .mapping a, .mapping b => a.length == b.length && sameEntries a b
  | .tagged s a, .tagged t b => s == t && same a b
  | _, _ => false

def sameItems : List Value → List Value → Bool
  | [], [] => true
  | a :: as, b :: bs => same a b && sameItems as bs
  | _, _ => false

def sameEntries : List (Value × Value) → List (Value × Value) → Bool
  | [], _ => true
  | (k, v) :: rest, entries =>
    (entries.any fun e => same k e.1 && same v e.2) && sameEntries rest entries
end

def setEntry (key value : Value) : List (Value × Value) → List (Value × Value)
  | [] => [(key, value)]
  | (k, v) :: rest =>
    if same key k then (k, value) :: rest else (k, v) :: setEntry key value rest

def hasKey (key : Value) (entries : List (Value × Value)) : Bool :=
  entries.any fun e => same key e.1

def untagged : Value → Value
  | .tagged _ v => untagged v
  | v => v

end Value

end TopicHub.Yaml
