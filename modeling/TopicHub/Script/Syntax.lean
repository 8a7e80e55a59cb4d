import TopicHub.Script.Value

/-!
Scripts: functions, and statements that run when no function is called.
-/

namespace TopicHub.Script

inductive SignOp where
  | negate
  | plus
  | not
  deriving DecidableEq, Repr

inductive BinaryOp where
  | add
  | subtract
  | multiply
  | divide
  | modulo
  | power
  | shiftLeft
  | shiftRight
  | equal
  | notEqual
  | less
  | lessOrEqual
  | greater
  | greaterOrEqual
  | bitAnd
  | bitOr
  | bitXor
  deriving DecidableEq, Repr

mutual
inductive Expr where
  | literal (v : Value)
  | var (name : String)
  | array (items : List Expr)
  | sign (op : SignOp) (e : Expr)
  | binary (op : BinaryOp) (l r : Expr)
  | and (l r : Expr)
  | or (l r : Expr)
  | call (name : String) (args : List Expr)
  | choose (test : Expr) (yes no : List Stmt)

inductive Stmt where
  | expr (e : Expr)
  | bind (name : String) (e : Expr)
  | ret (e : Option Expr)
  | throw
end

deriving instance Repr, Inhabited for Expr, Stmt

structure Function where
  name : String
  params : List String
  body : List Stmt
  deriving Repr

structure Program where
  functions : List Function
  body : List Stmt
  depth : Nat
  deriving Repr

namespace Program

/-- Functions of one name are told apart by the number of their arguments. -/
def function? (p : Program) (name : String) (count : Nat) : Option Function :=
  p.functions.find? fun f => f.name = name && f.params.length = count

def defines (p : Program) (name : String) : Bool := p.functions.any fun f => f.name = name

end Program

end TopicHub.Script
