import TopicHub.Script.Reader
import TopicHub.Text.Lower

/-!
The value of a script. Integers have 64 bits and do not wrap; a mixture of integers and reals is
calculated in reals. Values of different kinds are not equal and have no order.
-/

namespace TopicHub.Script

open Number

inductive Exit where
  | returned (v : Value)
  | failed

abbrev Outcome := Except Exit Value

def checked (n : Int) : Outcome := if inInt64 n then .ok (.int n) else .error .failed

/-- Small exponents only: any other power of a number beyond one in size does not fit. -/
def powerInt (n m : Int) : Outcome :=
  if m < 0 then .error .failed
  else if n = 0 || n = 1 || n = -1 then .ok (.int (Int.pow n (if m % 2 = 0 then min m 2 else 1).toNat))
  else if 64 ≤ m then .error .failed
  else checked (Int.pow n m.toNat)

def shiftInt (left : Bool) (n m : Int) : Outcome :=
  if m < 0 || 64 ≤ m then .error .failed
  else .ok (.int (if left then (n * Int.pow 2 m.toNat).bmod span64 else n.fdiv (Int.pow 2 m.toNat)))

def bitsInt (f : Nat → Nat → Nat) (n m : Int) : Outcome :=
  .ok (.int ((f (n % (span64 : Int)).toNat (m % (span64 : Int)).toNat : Int).bmod span64))

def intOperation (op : BinaryOp) (n m : Int) : Outcome :=
  match op with
  | .add => checked (n + m)
  | .subtract => checked (n - m)
  | .multiply => checked (n * m)
  | .divide => if m = 0 then .error .failed else checked (n.tdiv m)
  | .modulo => if m = 0 || n = minInt && m = -1 then .error .failed else .ok (.int (n.tmod m))
  | .power => powerInt n m
  | .shiftLeft => shiftInt true n m
  | .shiftRight => shiftInt false n m
  | .equal => .ok (.bool (n = m))
  | .notEqual => .ok (.bool (n ≠ m))
  | .less => .ok (.bool (n < m))
  | .lessOrEqual => .ok (.bool (n ≤ m))
  | .greater => .ok (.bool (m < n))
  | .greaterOrEqual => .ok (.bool (m ≤ n))
  | .bitAnd => bitsInt (· &&& ·) n m
  | .bitOr => bitsInt (· ||| ·) n m
  | .bitXor => bitsInt (· ^^^ ·) n m

def floatOperation (op : BinaryOp) (x y : Float) : Outcome :=
  match op with
  | .add => .ok (.float (x + y))
  | .subtract => .ok (.float (x - y))
  | .multiply => .ok (.float (x * y))
  | .divide => .ok (.float (x / y))
  | .modulo => .ok (.float (remainder x y))
  | .power => .ok (.float (x ^ y))
  | .equal => .ok (.bool (x == y))
  | .notEqual => .ok (.bool !(x == y))
  | .less => .ok (.bool (x < y))
  | .lessOrEqual => .ok (.bool (x ≤ y))
  | .greater => .ok (.bool (y < x))
  | .greaterOrEqual => .ok (.bool (y ≤ x))
  | _ => .error .failed

def textOperation (op : BinaryOp) (s t : List Char) : Outcome :=
  let a := String.ofList s
  let b := String.ofList t
  match op with
  | .add => .ok (.string (s ++ t))
  | .equal => .ok (.bool (s = t))
  | .notEqual => .ok (.bool (s ≠ t))
  | .less => .ok (.bool (a < b))
  | .lessOrEqual => .ok (.bool !(b < a))
  | .greater => .ok (.bool (b < a))
  | .greaterOrEqual => .ok (.bool !(a < b))
  | _ => .error .failed

def boolOperation (op : BinaryOp) (a b : Bool) : Outcome :=
  match op with
  | .equal => .ok (.bool (a = b))
  | .notEqual => .ok (.bool (a ≠ b))
  | .less => .ok (.bool (!a && b))
  | .lessOrEqual => .ok (.bool (!a || b))
  | .greater => .ok (.bool (a && !b))
  | .greaterOrEqual => .ok (.bool (a || !b))
  | .bitAnd => .ok (.bool (a && b))
  | .bitOr => .ok (.bool (a || b))
  | .bitXor => .ok (.bool (a != b))
  | _ => .error .failed

def unequalKinds : BinaryOp → Outcome
  | .notEqual => .ok (.bool true)
  | .equal | .less | .lessOrEqual | .greater | .greaterOrEqual => .ok (.bool false)
  | _ => .error .failed

mutual
def sameValue : Value → Value → Bool
  | .unit, .unit => true
  | .bool a, .bool b => a = b
  | .int n, .int m => n = m
  | .float x, .float y => x == y
  | .int n, .float x => ofInt n == x
  | .float x, .int n => x == ofInt n
  | .char c, .char d => c = d
  | .string s, .string t => s = t
  | .array as, .array bs => sameValues as bs
  | _, _ => false

def sameValues : List Value → List Value → Bool
  | [], [] => true
  | a :: as, b :: bs => sameValue a b && sameValues as bs
  | _, _ => false
end

/-- A text takes the text of anything that is added to it on either side. -/
def operation (op : BinaryOp) (a b : Value) : Outcome :=
  match a, b with
  | .int n, .int m => intOperation op n m
  | .int n, .float y => floatOperation op (ofInt n) y
  | .float x, .int m => floatOperation op x (ofInt m)
  | .float x, .float y => floatOperation op x y
  | .string s, .string t => textOperation op s t
  | .char c, .string t => textOperation op [c] t
  | .string s, .char d => textOperation op s [d]
  | .char c, .char d => textOperation op [c] [d]
  | .bool a, .bool b => boolOperation op a b
  | .unit, .unit =>
    match op with
    | .equal => .ok (.bool true)
    | op => unequalKinds' op
  | .array as, .array bs =>
    match op with
    | .add => .ok (.array (as ++ bs))
    | .equal => .ok (.bool (sameValues as bs))
    | .notEqual => .ok (.bool !(sameValues as bs))
    | _ => .error .failed
  | .string s, b => if op = .add then .ok (.string (s ++ b.text)) else unequalKinds op
  | a, .string t => if op = .add then .ok (.string (a.text ++ t)) else unequalKinds op
  | _, _ => unequalKinds op
where
  unequalKinds' : BinaryOp → Outcome
    | .notEqual | .less | .lessOrEqual | .greater | .greaterOrEqual => .ok (.bool false)
    | _ => .error .failed

def signOperation (op : SignOp) (v : Value) : Outcome :=
  match op, v with
  | .negate, .int n => checked (-n)
  | .negate, .float x => .ok (.float (-x))
  | .plus, .int n => .ok (.int n)
  | .plus, .float x => .ok (.float x)
  | .not, .bool b => .ok (.bool !b)
  | _, _ => .error .failed

def library (name : String) (args : List Value) : Outcome :=
  match name, args with
  | "to_string", [v] => .ok (.string v.text)
  | "to_debug", [v] => .ok (.string v.itemText)
  | "type_of", [v] => .ok (.string v.typeName.toList)
  | "len", [.string s] => .ok (.int s.length)
  | "len", [.array items] => .ok (.int items.length)
  | "abs", [.int n] => checked n.natAbs
  | "abs", [.float x] => .ok (.float x.abs)
  | "to_int", [.int n] => .ok (.int n)
  | "to_int", [.float x] => if isFinite x then checked (truncate x) else .error .failed
  | "to_int", [.char c] => .ok (.int c.toNat)
  | "to_float", [.int n] => .ok (.float (ofInt n))
  | "to_float", [.float x] => .ok (.float x)
  | "parse_int", [.string s] =>
    match (String.ofList s).trimBlank.toInt? with
    | some n => checked n
    | none => .error .failed
  | "parse_float", [.string s] =>
    match float? (Text.trim s) with
    | some x => .ok (.float x)
    | none => .error .failed
  | "floor", [.float x] => .ok (.float x.floor)
  | "ceiling", [.float x] => .ok (.float x.ceil)
  | "round", [.float x] => .ok (.float x.round)
  | "sqrt", [.float x] => .ok (.float x.sqrt)
  | "min", [.int n, .int m] => .ok (.int (min n m))
  | "max", [.int n, .int m] => .ok (.int (max n m))
  | "to_upper", [.string s] => .ok (.string (s.map Char.toUpper))
  | "to_lower", [.string s] => .ok (.string (Text.lower s))
  | "contains", [.string s, .string t] => .ok (.bool (Text.contains s t))
  | "contains", [.string s, .char c] => .ok (.bool (s.contains c))
  | "is_empty", [.string s] => .ok (.bool s.isEmpty)
  | "is_empty", [.array items] => .ok (.bool items.isEmpty)
  | _, _ => .error .failed

abbrev Bindings := List (String × Value)

def lookupVar (name : String) : Bindings → Outcome
  | [] => .error .failed
  | (n, v) :: rest => if n = name then .ok v else lookupVar name rest

def valueOfReturn : Outcome → Outcome
  | .error (.returned v) => .ok v
  | o => o

/-- How deep calls may be nested. -/
def callLimit : Nat := 64

mutual
/-- The value of an expression. The first argument bounds the depth of the evaluation, `calls` the nesting
of calls. -/
def evaluate (p : Program) : Nat → (calls : Nat) → Bindings → Expr → Outcome
  | 0, _, _, _ => .error .failed
  | fuel + 1, calls, env, e =>
    match e with
    | .literal v => .ok v
    | .var name => lookupVar name env
    | .array items => (evaluateAll p fuel calls env items).map .array
    | .sign op e => do signOperation op (← evaluate p fuel calls env e)
    | .binary op l r => do
      let a ← evaluate p fuel calls env l
      let b ← evaluate p fuel calls env r
      operation op a b
    | .and l r => do
      match ← evaluate p fuel calls env l with
      | .bool false => .ok (.bool false)
      | .bool true => boolOnly (← evaluate p fuel calls env r)
      | _ => .error .failed
    | .or l r => do
      match ← evaluate p fuel calls env l with
      | .bool true => .ok (.bool true)
      | .bool false => boolOnly (← evaluate p fuel calls env r)
      | _ => .error .failed
    | .call name args => do
      let vs ← evaluateAll p fuel calls env args
      match p.function? name vs.length with
      | some f =>
        if calls = 0 then .error .failed
        else valueOfReturn (run p fuel (calls - 1) (f.params.zip vs) f.body)
      | none => library name vs
    | .choose test yes no => do
      match ← evaluate p fuel calls env test with
      | .bool true => run p fuel calls env yes
      | .bool false => run p fuel calls env no
      | _ => .error .failed
where
  boolOnly : Value → Outcome
    | .bool b => .ok (.bool b)
    | _ => .error .failed

def evaluateAll (p : Program) : Nat → (calls : Nat) → Bindings → List Expr →
    Except Exit (List Value)
  | 0, _, _, _ => .error .failed
  | _ + 1, _, _, [] => .ok []
  | fuel + 1, calls, env, e :: rest => do
    let v ← evaluate p fuel calls env e
    let vs ← evaluateAll p fuel calls env rest
    .ok (v :: vs)

def run (p : Program) : Nat → (calls : Nat) → Bindings → List Stmt → Outcome
  | 0, _, _, _ => .error .failed
  | _ + 1, _, _, [] => .ok .unit
  | fuel + 1, calls, env, s :: rest =>
    match s, rest with
    | .expr e, [] => evaluate p fuel calls env e
    | .expr e, rest => do
      let _ ← evaluate p fuel calls env e
      run p fuel calls env rest
    | .bind name e, rest => do
      let v ← evaluate p fuel calls env e
      run p fuel calls ((name, v) :: env) rest
    | .ret none, _ => .error (.returned .unit)
    | .ret (some e), _ => do .error (.returned (← evaluate p fuel calls env e))
    | .throw, _ => .error .failed
end

/-- Enough for every evaluation of a program whose calls are nested no deeper than allowed. -/
def Program.fuel (p : Program) : Nat := (callLimit + 2) * (p.depth + 4)

def Program.runBody (p : Program) (env : Bindings) : Outcome :=
  valueOfReturn (run p p.fuel callLimit env p.body)

def Program.call (p : Program) (name : String) (args : List Value) : Outcome := do
  let _ ← p.runBody []
  match p.function? name args.length with
  | some f => valueOfReturn (run p p.fuel callLimit (f.params.zip args) f.body)
  | none => .error .failed

/-- The value of a text that is an expression; a text that is none, or whose evaluation fails, stands for
itself. -/
def argumentValue (text : List Char) : Value :=
  if text.isEmpty then .unit
  else match Expr.read? text with
    | none => .string text
    | some (e, depth) =>
      match evaluate ⟨[], [], depth⟩ (depth + 4) callLimit [] e with
      | .ok v => v
      | .error _ => .string text

end TopicHub.Script
