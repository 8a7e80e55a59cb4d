import TopicHub.Script.Syntax
import TopicHub.Script.Token

/-!
Reading scripts. The levels of the operators, from loose to tight: disjunction, conjunction, equality,
order, sums, products, powers, shifts.
-/

namespace TopicHub.Script

abbrev Reading (α : Type) := Option (α × List Token)

def binary? (mark : String) : Option (Nat × (Expr → Expr → Expr)) :=
  match mark with
  | "||" => some (1, .or)
  | "|" => some (1, .binary .bitOr)
  | "^" => some (1, .binary .bitXor)
  | "&&" => some (2, .and)
  | "&" => some (2, .binary .bitAnd)
  | "==" => some (3, .binary .equal)
  | "!=" => some (3, .binary .notEqual)
  | "<" => some (4, .binary .less)
  | "<=" => some (4, .binary .lessOrEqual)
  | ">" => some (4, .binary .greater)
  | ">=" => some (4, .binary .greaterOrEqual)
  | "+" => some (5, .binary .add)
  | "-" => some (5, .binary .subtract)
  | "*" => some (6, .binary .multiply)
  | "/" => some (6, .binary .divide)
  | "%" => some (6, .binary .modulo)
  | "**" => some (7, .binary .power)
  | "<<" => some (8, .binary .shiftLeft)
  | ">>" => some (8, .binary .shiftRight)
  | _ => none

def keywords : List String :=
  ["const", "else", "false", "fn", "if", "let", "return", "throw", "true"]

/-- A sign in front of a number is part of it. -/
def signed (op : SignOp) : Expr → Expr
  | .literal (.int n) =>
    match op with
    | .negate =>
      if Number.inInt64 (-n) then .literal (.int (-n)) else .literal (.float (Number.ofInt (-n)))
    | .plus => .literal (.int n)
    | .not => .sign .not (.literal (.int n))
  | .literal (.float x) =>
    match op with
    | .negate => .literal (.float (-x))
    | .plus => .literal (.float x)
    | .not => .sign .not (.literal (.float x))
  | e => .sign op e

mutual
/-- An expression of at least the given level. The first argument bounds the depth of the reading; six
times the number of the tokens is always enough. In a `plain` text a block holds one expression and
nothing else. -/
def readExpr (plain : Bool) : Nat → (level : Nat) → List Token → Reading Expr
  | 0, _, _ => none
  | fuel + 1, level, ts =>
    match readSigned plain fuel ts with
    | none => none
    | some (e, rest) => readOperators plain fuel level e rest

def readSigned (plain : Bool) : Nat → List Token → Reading Expr
  | 0, _ => none
  | fuel + 1, ts =>
    match ts with
    | .mark "-" :: rest => (readSigned plain fuel rest).map fun (e, rest) => (signed .negate e, rest)
    | .mark "+" :: rest => (readSigned plain fuel rest).map fun (e, rest) => (signed .plus e, rest)
    | .mark "!" :: rest => (readSigned plain fuel rest).map fun (e, rest) => (.sign .not e, rest)
    | ts =>
      match readOperand plain fuel ts with
      | none => none
      | some (e, rest) => readMethods plain fuel e rest

def readOperand (plain : Bool) : Nat → List Token → Reading Expr
  | 0, _ => none
  | fuel + 1, ts =>
    match ts with
    | .int n :: rest => some (.literal (.int n), rest)
    | .float x :: rest => some (.literal (.float x), rest)
    | .char c :: rest => some (.literal (.char c), rest)
    | .string s :: rest => some (.literal (.string s), rest)
    | .mark "(" :: .mark ")" :: rest => some (.literal .unit, rest)
    | .mark "(" :: rest =>
      match readExpr plain fuel 1 rest with
      | some (e, .mark ")" :: rest) => some (e, rest)
      | _ => none
    | .mark "[" :: rest =>
      (readItems plain "]" fuel rest).map fun (items, rest) => (.array items, rest)
    | .word "true" :: rest => some (.literal (.bool true), rest)
    | .word "false" :: rest => some (.literal (.bool false), rest)
    | .word "if" :: rest => readChoice plain fuel rest
    | .word w :: rest =>
      if keywords.contains w then none
      else match rest with
        | .mark "(" :: rest =>
          (readItems plain ")" fuel rest).map fun (args, rest) => (.call w args, rest)
        | rest => some (.var w, rest)
    | _ => none

def readMethods (plain : Bool) : Nat → Expr → List Token → Reading Expr
  | 0, _, _ => none
  | fuel + 1, e, ts =>
    match ts with
    | .mark "." :: .word w :: .mark "(" :: rest =>
      match readItems plain ")" fuel rest with
      | some (args, rest) => readMethods plain fuel (.call w (e :: args)) rest
      | none => none
    | .mark "." :: _ => none
    | .mark "[" :: _ => none
    | ts => some (e, ts)

def readItems (plain : Bool) (close : String) : Nat → List Token → Reading (List Expr)
  | 0, _ => none
  | fuel + 1, ts =>
    match ts with
    | .mark m :: rest =>
      if m = close then some ([], rest) else readItem plain close fuel (.mark m :: rest)
    | ts => readItem plain close fuel ts

def readItem (plain : Bool) (close : String) : Nat → List Token → Reading (List Expr)
  | 0, _ => none
  | fuel + 1, ts =>
    match readExpr plain fuel 1 ts with
    | some (e, .mark "," :: rest) =>
      (readItems plain close fuel rest).map fun (es, rest) => (e :: es, rest)
    | some (e, .mark m :: rest) => if m = close then some ([e], rest) else none
    | _ => none

def readChoice (plain : Bool) : Nat → List Token → Reading Expr
  | 0, _ => none
  | fuel + 1, ts =>
    match readExpr plain fuel 1 ts with
    | none => none
    | some (test, rest) =>
      match readBlock plain fuel rest with
      | some (yes, .word "else" :: .word "if" :: rest) =>
        (readChoice plain fuel rest).map fun (no, rest) => (.choose test yes [.expr no], rest)
      | some (yes, .word "else" :: rest) =>
        (readBlock plain fuel rest).map fun (no, rest) => (.choose test yes no, rest)
      | some (yes, rest) => some (.choose test yes [], rest)
      | none => none

def readBlock (plain : Bool) : Nat → List Token → Reading (List Stmt)
  | 0, _ => none
  | fuel + 1, ts =>
    match ts with
    | .mark "\x7b" :: rest =>
      if plain then
        match readExpr plain fuel 1 rest with
        | some (e, .mark "\x7d" :: rest) => some ([.expr e], rest)
        | _ => none
      else readStatements fuel rest
    | _ => none

/-- Statements up to the closing brace. A statement ends at a semicolon or the brace, or with a block of
its own. -/
def readStatements : Nat → List Token → Reading (List Stmt)
  | 0, _ => none
  | fuel + 1, ts =>
    match ts with
    | .mark "\x7d" :: rest => some ([], rest)
    | .mark ";" :: rest => readStatements fuel rest
    | ts =>
      match readStatement fuel ts with
      | some (s, .mark ";" :: rest) =>
        (readStatements fuel rest).map fun (more, rest) => (s :: more, rest)
      | some (s, .mark "\x7d" :: rest) => some ([s], rest)
      | some (s, rest) =>
        match s with
        | .expr (.choose ..) =>
          (readStatements fuel rest).map fun (more, rest) => (s :: more, rest)
        | _ => none
      | none => none

def readStatement : Nat → List Token → Reading Stmt
  | 0, _ => none
  | fuel + 1, ts =>
    match ts with
    | .word "let" :: .word name :: .mark "=" :: rest
    | .word "const" :: .word name :: .mark "=" :: rest =>
      if keywords.contains name then none
      else (readExpr false fuel 1 rest).map fun (e, rest) => (.bind name e, rest)
    | .word "let" :: .word name :: rest =>
      if keywords.contains name then none else some (.bind name (.literal .unit), rest)
    | .word "return" :: rest =>
      match endsStatement rest with
      | true => some (.ret none, rest)
      | false => (readExpr false fuel 1 rest).map fun (e, rest) => (.ret (some e), rest)
    | .word "throw" :: rest =>
      match endsStatement rest with
      | true => some (.throw, rest)
      | false => (readExpr false fuel 1 rest).map fun (_, rest) => (.throw, rest)
    | .word "if" :: rest => (readChoice false fuel rest).map fun (e, rest) => (.expr e, rest)
    | ts => (readExpr false fuel 1 ts).map fun (e, rest) => (.expr e, rest)
where
  endsStatement : List Token → Bool
    | [] | .mark ";" :: _ | .mark "\x7d" :: _ => true
    | _ => false

def readOperators (plain : Bool) : Nat → (level : Nat) → Expr → List Token → Reading Expr
  | 0, _, _, _ => none
  | fuel + 1, level, l, ts =>
    match ts with
    | .mark m :: rest =>
      match binary? m with
      | none => some (l, ts)
      | some (at_, make) =>
        if at_ < level then some (l, ts)
        else match readExpr plain fuel (if m = "**" then at_ else at_ + 1) rest with
          | none => none
          | some (r, rest) => readOperators plain fuel level (make l r) rest
    | ts => some (l, ts)
end

def readParams : List Token → Reading (List String)
  | .mark ")" :: rest => some ([], rest)
  | .word p :: .mark ")" :: rest => if keywords.contains p then none else some ([p], rest)
  | .word p :: .mark "," :: rest =>
    if keywords.contains p then none
    else (readParams rest).map fun (ps, rest) => (p :: ps, rest)
  | _ => none

def distinct : List String → Bool
  | [] => true
  | p :: ps => !ps.contains p && distinct ps

def readProgram (depth : Nat) : Nat → Program → List Token → Option Program
  | 0, _, _ => none
  | fuel + 1, p, ts =>
    match ts with
    | [] => some p
    | .mark ";" :: rest => readProgram depth fuel p rest
    | .word "fn" :: .word name :: .mark "(" :: rest =>
      if keywords.contains name then none
      else match readParams rest with
        | none => none
        | some (params, rest) =>
          match readBlock false depth rest with
          | none => none
          | some (body, rest) =>
            if distinct params && (p.function? name params.length).isNone then
              readProgram depth fuel { p with functions := p.functions ++ [⟨name, params, body⟩] } rest
            else none
    | ts =>
      match readStatement depth ts with
      | none => none
      | some (s, rest) =>
        let p := { p with body := p.body ++ [s] }
        match s, rest with
        | _, [] => some p
        | _, .mark ";" :: rest => readProgram depth fuel p rest
        | .expr (.choose ..), rest => readProgram depth fuel p rest
        | _, _ => none

def Program.read? (source : List Char) : Option Program :=
  (tokens source).bind fun ts =>
    let depth := 6 * ts.length + 12
    readProgram depth (ts.length + 1) ⟨[], [], depth⟩ ts

def Expr.read? (text : List Char) : Option (Expr × Nat) :=
  (tokens text).bind fun ts =>
    let depth := 6 * ts.length + 12
    match readExpr true depth 1 ts with
    | some (e, []) => some (e, depth)
    | _ => none

end TopicHub.Script
