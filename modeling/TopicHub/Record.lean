import TopicHub.Json.Reader

/-!
Records in documents. A record is written as an object or, where the format admits it, as an array of
its fields in the order of their declaration. The class `Document` holds what reading a record asks of
a document, so that one reader serves every format.
-/

namespace TopicHub

class Document (δ : Type) where
  isNull : δ → Bool
  text? : δ → Option String
  bool? : δ → Option Bool
  integer? : δ → Option Int
  items? : δ → Option (List δ)
  fields? : δ → Option (List δ)
  members? : δ → Option (List (String × δ))
  choice? : δ → Option String

namespace Document

variable {δ : Type} [Document δ] {α : Type}

def integerIn? (low high : Int) (d : δ) : Option Int :=
  (integer? d).bind fun n => if low ≤ n && n ≤ high then some n else none

def natBelow? (bound : Nat) (d : δ) : Option Nat :=
  (integer? d).bind fun n => if 0 ≤ n && n < bound then some n.toNat else none

def listOf? (read : δ → Option α) (d : δ) : Option (List α) :=
  (items? d).bind fun ds => ds.mapM read

end Document

/-- The fields of a record that a document gives. -/
structure Slots (δ : Type) where
  given : List (String × δ)
  positional : Bool

namespace Slots

open Document

variable {δ : Type} [Document δ] {α : Type}

def repeats (names : List String) (members : List (String × δ)) : Bool :=
  names.any fun n => 1 < (members.filter fun m => m.1 = n).length

/-- Members with other names are passed over; an array may be too short but not too long. -/
def ofDocument? (names : List String) (d : δ) : Option (Slots δ) :=
  match members? d with
  | some members => if repeats names members then none else some ⟨members, false⟩
  | none =>
    (fields? d).bind fun ds =>
      if ds.length ≤ names.length then some ⟨names.zip ds, true⟩ else none

def get? (s : Slots δ) (name : String) : Option δ := Json.lookup? name s.given

def required? (s : Slots δ) (name : String) (read : δ → Option α) : Option α :=
  (s.get? name).bind read

def withDefault? (s : Slots δ) (name : String) (fallback : α) (read : δ → Option α) : Option α :=
  match s.get? name with
  | none => some fallback
  | some d => read d

/-- An absent member and a null both mean none. -/
def optional? (s : Slots δ) (name : String) (read : δ → Option α) : Option (Option α) :=
  match s.get? name with
  | none => some none
  | some d => if isNull d then some none else (read d).map some

end Slots

namespace Json

def Numeral.integer? (n : Numeral) : Option Int :=
  match n.value? with
  | some (.int i) => some i
  | _ => none

def rawMembers? (fields : List (Option String × Raw)) : Option (List (String × Raw)) :=
  fields.mapM fun (k, v) => k.map (·, v)

instance : Document Raw where
  isNull
    | .null => true
    | _ => false
  text?
    | .string s => s
    | _ => none
  bool?
    | .bool b => some b
    | _ => none
  integer?
    | .number n => n.integer?
    | _ => none
  items?
    | .array items => some items
    | _ => none
  fields?
    | .array items => some items
    | _ => none
  members?
    | .object fields => rawMembers? fields
    | _ => none
  choice?
    | .string s => s
    | .object [(k, .null)] => k
    | _ => none

instance : Document Value where
  isNull
    | .null => true
    | _ => false
  text?
    | .string s => some s
    | _ => none
  bool?
    | .bool b => some b
    | _ => none
  integer?
    | .number (.int n) => some n
    | _ => none
  items?
    | .array items => some items
    | _ => none
  fields?
    | .array items => some items
    | _ => none
  members?
    | .object fields => some fields
    | _ => none
  choice?
    | .string s => some s
    | .object [(k, .null)] => some k
    | _ => none

end Json

end TopicHub
