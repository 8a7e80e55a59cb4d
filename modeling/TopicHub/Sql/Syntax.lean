import TopicHub.Sql.Value

/-!
SQL expressions.
-/

namespace TopicHub.Sql

inductive ArithmeticOp where
  | add
  | subtract
  | multiply
  | divide
  | modulo
  deriving DecidableEq, Repr

inductive BitOp where
  | and
  | or
  | shiftLeft
  | shiftRight
  deriving DecidableEq, Repr

inductive CompareOp where
  | equal
  | notEqual
  | less
  | lessOrEqual
  | greater
  | greaterOrEqual
  deriving DecidableEq, Repr

inductive Affinity where
  | blob
  | text
  | numeric
  | integer
  | real
  deriving DecidableEq, Repr

inductive Expr where
  | null
  | integer (n : Nat)
  | hex (n : Nat)
  | real (x : Float)
  | text (s : List Char)
  | blob (s : List Char)
  | name (s : String)
  | negate (e : Expr)
  | plus (e : Expr)
  | bitNot (e : Expr)
  | not (e : Expr)
  | arithmetic (op : ArithmeticOp) (l r : Expr)
  | bits (op : BitOp) (l r : Expr)
  | compare (op : CompareOp) (l r : Expr)
  | same (l r : Expr)
  | and (l r : Expr)
  | or (l r : Expr)
  | between (e low high : Expr)
  | among (e : Expr) (items : List Expr)
  | isNull (e : Expr)
  | hasTruth (b : Bool) (e : Expr)
  | cast (e : Expr) (kind : Affinity)
  | choose (operand : Option Expr) (branches : List (Expr × Expr)) (fallback : Option Expr)
  | call (name : String) (args : List Expr)
  | countRows
  deriving Repr, Inhabited

namespace Expr

def isZero : Expr → Bool
  | .integer n => n = 0
  | .hex n => n = 0
  | _ => false

/-- A conjunction with a literal zero is that zero, whatever the other side is. -/
def conj (l r : Expr) : Expr := if l.isZero || r.isZero then .integer 0 else .and l r

def truthWord? (s : String) : Option Bool :=
  if s = "true" then some true else if s = "false" then some false else none

def is (l r : Expr) : Expr :=
  match r with
  | .null => .isNull l
  | .name s =>
    match truthWord? s with
    | some b => .hasTruth b l
    | none => .same l r
  | r => .same l r

/-- Membership. No value is in an empty list, and a list of one is compared with directly. -/
def isAmong (e : Expr) : List Expr → Expr
  | [] => .integer 0
  | [item] => .compare .equal e (.plus item)
  | items => .among e items

/-- The affinity that a comparison takes from an operand. -/
def affinity? : Expr → Option Affinity
  | .cast _ kind => some kind
  | _ => none

mutual
def height : Expr → Nat
  | .null | .integer _ | .hex _ | .real _ | .text _ | .blob _ | .name _ | .countRows => 1
  | .negate e | .plus e | .bitNot e | .not e | .isNull e | .hasTruth _ e | .cast e _ => e.height + 1
  | .arithmetic _ l r | .bits _ l r | .compare _ l r | .same l r | .and l r | .or l r =>
    max l.height r.height + 1
  | .between e low high => max e.height (max low.height high.height) + 1
  | .among e items => max e.height (heights items) + 1
  | .call _ args => heights args + 1
  | .choose operand branches fallback =>
    max (optionHeight operand) (max (branchHeights branches) (optionHeight fallback)) + 1

def heights : List Expr → Nat
  | [] => 0
  | e :: rest => max e.height (heights rest)

def branchHeights : List (Expr × Expr) → Nat
  | [] => 0
  | (test, e) :: rest => max (max test.height e.height) (branchHeights rest)

def optionHeight : Option Expr → Nat
  | none => 0
  | some e => e.height
end

end Expr

end TopicHub.Sql
