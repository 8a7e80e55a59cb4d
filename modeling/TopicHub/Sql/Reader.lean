import TopicHub.Sql.Syntax
import TopicHub.Sql.Token

/-!
Reading SQL expressions by precedence. The levels, from loose to tight: disjunction, conjunction,
negation, equality and membership, order, bits, sums, products, signs.
-/

namespace TopicHub.Sql

open Text

def reservedWords : List String :=
  ["add", "all", "alter", "and", "as", "autoincrement", "between", "case", "check", "collate",
    "commit", "constraint", "create", "default", "deferrable", "delete", "distinct", "drop", "else",
    "escape", "except", "exists", "foreign", "from", "group", "having", "in", "index", "insert",
    "intersect", "into", "is", "isnull", "join", "limit", "not", "nothing", "notnull", "null", "on",
    "or", "order", "primary", "references", "returning", "select", "set", "table", "then", "to",
    "transaction", "union", "unique", "update", "using", "values", "when", "where"]

def joinWords : List String :=
  ["cross", "full", "indexed", "inner", "left", "natural", "outer", "right"]

namespace Level

def disjunction : Nat := 1
def conjunction : Nat := 2
def negation : Nat := 3
def equality : Nat := 4
def order : Nat := 5
def bits : Nat := 7
def sum : Nat := 8
def product : Nat := 9
def sign : Nat := 12

end Level

def binary? : Symbol → Option (Nat × (Expr → Expr → Expr))
  | .equal => some (Level.equality, .compare .equal)
  | .notEqual => some (Level.equality, .compare .notEqual)
  | .less => some (Level.order, .compare .less)
  | .lessOrEqual => some (Level.order, .compare .lessOrEqual)
  | .greater => some (Level.order, .compare .greater)
  | .greaterOrEqual => some (Level.order, .compare .greaterOrEqual)
  | .ampersand => some (Level.bits, .bits .and)
  | .bar => some (Level.bits, .bits .or)
  | .shiftLeft => some (Level.bits, .bits .shiftLeft)
  | .shiftRight => some (Level.bits, .bits .shiftRight)
  | .plus => some (Level.sum, .arithmetic .add)
  | .minus => some (Level.sum, .arithmetic .subtract)
  | .star => some (Level.product, .arithmetic .multiply)
  | .slash => some (Level.product, .arithmetic .divide)
  | .percent => some (Level.product, .arithmetic .modulo)
  | _ => none

/-- The affinity of a type, read off the words that its name contains. -/
def affinityOf (type : List Char) : Affinity :=
  let has (word : String) : Bool := contains type word.toList
  if has "int" then .integer
  else if has "char" || has "clob" || has "text" then .text
  else if has "blob" then .blob
  else if has "real" || has "floa" || has "doub" then .real
  else .numeric

def readType : (name : List Char) → List Token → Option (Affinity × List Token)
  | name, .symbol .rparen :: rest => some (affinityOf name, rest)
  | name, .word w :: rest =>
    if reservedWords.contains w then none else readType (name ++ ' ' :: w.toList) rest
  | name, .text s :: rest => readType (name ++ ' ' :: s.map Char.toLower) rest
  | name, .quoted _ s :: rest => readType (name ++ ' ' :: s.map Char.toLower) rest
  | name, .symbol .lparen :: .integer _ :: .symbol .rparen :: .symbol .rparen :: rest =>
    some (affinityOf name, rest)
  | name, .symbol .lparen :: .integer _ :: .symbol .comma :: .integer _ :: .symbol .rparen ::
      .symbol .rparen :: rest => some (affinityOf name, rest)
  | _, _ => none

abbrev Reading (α : Type) := Option (α × List Token)

mutual
/-- An expression of at least the given level. The first argument bounds the depth of the reading; four
times the number of the tokens is always enough. -/
def readExpr : Nat → (level : Nat) → List Token → Reading Expr
  | 0, _, _ => none
  | fuel + 1, level, ts =>
    match readOperand fuel ts with
    | none => none
    | some (e, rest) => readOperators fuel level e rest

def readOperand : Nat → List Token → Reading Expr
  | 0, _ => none
  | fuel + 1, ts =>
    match ts with
    | .integer n :: rest => some (.integer n, rest)
    | .hex n :: rest => some (.hex n, rest)
    | .real x :: rest => some (.real x, rest)
    | .text s :: rest => some (.text s, rest)
    | .blob s :: rest => some (.blob s, rest)
    | .symbol .minus :: rest =>
      (readExpr fuel Level.sign rest).map fun (e, rest) => (.negate e, rest)
    | .symbol .plus :: rest => (readExpr fuel Level.sign rest).map fun (e, rest) => (.plus e, rest)
    | .symbol .tilde :: rest =>
      (readExpr fuel Level.sign rest).map fun (e, rest) => (.bitNot e, rest)
    | .symbol .lparen :: rest =>
      match readExpr fuel Level.disjunction rest with
      | some (e, .symbol .rparen :: rest) => some (e, rest)
      | _ => none
    | .quoted _ s :: .symbol .lparen :: rest =>
      readCall fuel (String.ofList (s.map Char.toLower)) rest
    | .quoted double s :: rest => some (if double then .text s else .name "", rest)
    | .word "null" :: rest => some (.null, rest)
    | .word "not" :: rest =>
      (readExpr fuel Level.negation rest).map fun (e, rest) => (.not e, rest)
    | .word "cast" :: .symbol .lparen :: rest =>
      match readExpr fuel Level.disjunction rest with
      | some (e, .word "as" :: rest) => (readType [] rest).map fun (kind, rest) => (.cast e kind, rest)
      | _ => none
    | .word "case" :: .word "when" :: rest => readBranches fuel none [] rest
    | .word "case" :: rest =>
      match readExpr fuel Level.disjunction rest with
      | some (e, .word "when" :: rest) => readBranches fuel (some e) [] rest
      | _ => none
    | .word w :: .symbol .lparen :: rest =>
      if reservedWords.contains w then none else readCall fuel w rest
    | .word w :: rest => if reservedWords.contains w then none else some (.name w, rest)
    | _ => none

def readBranches : Nat → (operand : Option Expr) → (done : List (Expr × Expr)) → List Token →
    Reading Expr
  | 0, _, _, _ => none
  | fuel + 1, operand, done, ts =>
    match readExpr fuel Level.disjunction ts with
    | some (test, .word "then" :: rest) =>
      match readExpr fuel Level.disjunction rest with
      | some (e, .word "when" :: rest) => readBranches fuel operand ((test, e) :: done) rest
      | some (e, .word "else" :: rest) =>
        match readExpr fuel Level.disjunction rest with
        | some (other, .word "end" :: rest) =>
          some (.choose operand ((test, e) :: done).reverse (some other), rest)
        | _ => none
      | some (e, .word "end" :: rest) =>
        some (.choose operand ((test, e) :: done).reverse none, rest)
      | _ => none
    | _ => none

def readCall : Nat → (name : String) → List Token → Reading Expr
  | 0, _, _ => none
  | fuel + 1, name, ts =>
    match ts with
    | .symbol .star :: .symbol .rparen :: rest =>
      if name = "count" then some (.countRows, rest) else none
    | ts => (readItems fuel ts).map fun (args, rest) => (.call name args, rest)

def readItems : Nat → List Token → Reading (List Expr)
  | 0, _ => none
  | fuel + 1, ts =>
    match ts with
    | .symbol .rparen :: rest => some ([], rest)
    | ts => readItemsAfter fuel ts

def readItemsAfter : Nat → List Token → Reading (List Expr)
  | 0, _ => none
  | fuel + 1, ts =>
    match readExpr fuel Level.disjunction ts with
    | some (e, .symbol .comma :: rest) =>
      (readItemsAfter fuel rest).map fun (es, rest) => (e :: es, rest)
    | some (e, .symbol .rparen :: rest) => some ([e], rest)
    | _ => none

def readOperators : Nat → (level : Nat) → Expr → List Token → Reading Expr
  | 0, _, _, _ => none
  | fuel + 1, level, l, ts =>
    /- An operand on the right, and on with the result. -/
    let right (at_ : Nat) (make : Expr → Expr) (rest : List Token) : Reading Expr :=
      match readExpr fuel at_ rest with
      | none => none
      | some (r, rest) => readOperators fuel level (make r) rest
    match ts with
    | .symbol s :: rest =>
      match binary? s with
      | some (at_, make) =>
        if level ≤ at_ then right (at_ + 1) (make l) rest else some (l, ts)
      | none => some (l, ts)
    | .word "or" :: rest =>
      if level ≤ Level.disjunction then right Level.conjunction (.or l) rest else some (l, ts)
    | .word "and" :: rest =>
      if level ≤ Level.conjunction then right Level.negation (Expr.conj l) rest else some (l, ts)
    | .word "is" :: .word "not" :: .word "distinct" :: .word "from" :: rest =>
      if level ≤ Level.equality then right Level.order (Expr.is l) rest else some (l, ts)
    | .word "is" :: .word "not" :: rest =>
      if level ≤ Level.equality then right Level.order (fun r => .not (Expr.is l r)) rest
      else some (l, ts)
    | .word "is" :: .word "distinct" :: .word "from" :: rest =>
      if level ≤ Level.equality then right Level.order (fun r => .not (Expr.is l r)) rest
      else some (l, ts)
    | .word "is" :: rest =>
      if level ≤ Level.equality then right Level.order (Expr.is l) rest else some (l, ts)
    | .word "isnull" :: rest =>
      if level ≤ Level.equality then readOperators fuel level (.isNull l) rest else some (l, ts)
    | .word "notnull" :: rest =>
      if level ≤ Level.equality then readOperators fuel level (.not (.isNull l)) rest
      else some (l, ts)
    | .word "not" :: .word "null" :: rest =>
      if level ≤ Level.negation then readOperators fuel level (.not (.isNull l)) rest
      else some (l, ts)
    | .word "not" :: rest =>
      if level ≤ Level.negation then
        match readMembership fuel l rest with
        | none => none
        | some (e, rest) => readOperators fuel level (.not e) rest
      else some (l, ts)
    | ts =>
      if level ≤ Level.equality then
        match readMembership fuel l ts with
        | none => some (l, ts)
        | some (e, rest) => readOperators fuel level e rest
      else some (l, ts)

def readMembership : Nat → Expr → List Token → Reading Expr
  | 0, _, _ => none
  | fuel + 1, l, ts =>
    match ts with
    | .word "between" :: rest =>
      match readExpr fuel Level.negation rest with
      | some (low, .word "and" :: rest) =>
        (readExpr fuel Level.order rest).map fun (high, rest) => (.between l low high, rest)
      | _ => none
    | .word "in" :: .symbol .lparen :: rest =>
      (readItems fuel rest).map fun (items, rest) => (Expr.isAmong l items, rest)
    | .word w :: rest =>
      if w = "like" || w = "glob" then
        match readExpr fuel Level.order rest with
        | some (pattern, .word "escape" :: rest) =>
          (readExpr fuel Level.order rest).map fun (e, rest) => (.call w [pattern, l, e], rest)
        | some (pattern, rest) => some (.call w [pattern, l], rest)
        | none => none
      else none
    | _ => none
end

def skipResultName : List Token → List Token
  | .word "as" :: .word w :: rest =>
    if reservedWords.contains w then .word "as" :: .word w :: rest else rest
  | .word "as" :: .text _ :: rest => rest
  | .word "as" :: .quoted _ _ :: rest => rest
  | .text _ :: rest => rest
  | .quoted _ _ :: rest => rest
  | .word w :: rest =>
    if reservedWords.contains w || joinWords.contains w then .word w :: rest else rest
  | ts => ts

def readResults : Nat → List Token → Option (List Expr)
  | 0, _ => none
  | fuel + 1, ts =>
    match readExpr (4 * ts.length + 8) Level.disjunction ts with
    | none => none
    | some (e, rest) =>
      match skipResultName rest with
      | [] => some [e]
      | .symbol .comma :: rest => (readResults fuel rest).map (e :: ·)
      | _ => none

def readQuery? (text : List Char) : Option (List Expr) :=
  (tokens text).bind fun ts =>
    let ts := match ts with
      | .word "distinct" :: rest => rest
      | .word "all" :: rest => rest
      | ts => ts
    readResults (ts.length + 1) ts

end TopicHub.Sql
