import TopicHub.Sql.Function
import TopicHub.Sql.Reader

/-!
The value of an SQL expression. Both sides of a conjunction and of a disjunction are evaluated; a choice
and the functions that take the first fitting argument evaluate no more than they need. Only part of SQL
is read: collations, queries within queries, rows and the functions for dates and JSON are refused.
-/

namespace TopicHub.Sql

open Number Text

namespace Expr

mutual
/-- Whether all names of an expression mean something and no function of rows stands inside another. -/
def isMeaningful (inAggregate : Bool) : Expr → Bool
  | .null | .integer _ | .hex _ | .real _ | .text _ | .blob _ => true
  | .name s => (truthWord? s).isSome
  | .countRows => !inAggregate
  | .negate e | .plus e | .bitNot e | .not e | .isNull e | .hasTruth _ e | .cast e _ =>
    e.isMeaningful inAggregate
  | .arithmetic _ l r | .bits _ l r | .compare _ l r | .same l r | .and l r | .or l r =>
    l.isMeaningful inAggregate && r.isMeaningful inAggregate
  | .between e low high =>
    e.isMeaningful inAggregate && low.isMeaningful inAggregate && high.isMeaningful inAggregate
  | .among e items => e.isMeaningful inAggregate && areMeaningful inAggregate items
  | .choose operand branches fallback =>
    optionMeaningful inAggregate operand && branchesMeaningful inAggregate branches &&
      optionMeaningful inAggregate fallback
  | .call f args =>
    accepts f args.length && !(inAggregate && isAggregate f args.length) &&
      areMeaningful (inAggregate || isAggregate f args.length) args

def areMeaningful (inAggregate : Bool) : List Expr → Bool
  | [] => true
  | e :: rest => e.isMeaningful inAggregate && areMeaningful inAggregate rest

def branchesMeaningful (inAggregate : Bool) : List (Expr × Expr) → Bool
  | [] => true
  | (test, e) :: rest =>
    test.isMeaningful inAggregate && e.isMeaningful inAggregate &&
      branchesMeaningful inAggregate rest

def optionMeaningful (inAggregate : Bool) : Option Expr → Bool
  | none => true
  | some e => e.isMeaningful inAggregate
end

end Expr

def wideInteger (n : Nat) : Value :=
  if n < span63 then .integer n else .real (readReal (digitChars n)).1

def hexInteger (n : Nat) : Int := (n : Int).bmod span64

def applyReal (op : ArithmeticOp) (a b : Value) : Value :=
  let x := a.toReal
  let y := b.toReal
  match op with
  | .add => .ofReal (x + y)
  | .subtract => .ofReal (x - y)
  | .multiply => .ofReal (x * y)
  | .divide => if y == 0.0 then .null else .ofReal (x / y)
  | .modulo =>
    let n := a.toInteger
    let m := b.toInteger
    if m = 0 then .null else .real (ofInt (n.tmod m))

def fitting (n : Int) (other : Value) : Value := if inInt64 n then .integer n else other

def applyArithmetic (op : ArithmeticOp) (a b : Value) : Value :=
  if a.isNull || b.isNull then .null
  else match a.toNumber, b.toNumber with
    | .integer n, .integer m =>
      match op with
      | .add => fitting (n + m) (applyReal op a b)
      | .subtract => fitting (n - m) (applyReal op a b)
      | .multiply => fitting (n * m) (applyReal op a b)
      | .divide => if m = 0 then .null else fitting (n.tdiv m) (applyReal op a b)
      | .modulo => if m = 0 then .null else .integer (n.tmod m)
    | _, _ => applyReal op a b

def shift (left : Bool) (n amount : Int) : Int :=
  let left := if amount < 0 then !left else left
  let amount := amount.natAbs
  if 64 ≤ amount then (if 0 ≤ n || left then 0 else -1)
  else if left then (n * Int.pow 2 amount).bmod span64
  else n.fdiv (Int.pow 2 amount)

def unsigned (n : Int) : Nat := (n % (span64 : Int)).toNat

def applyBits (op : BitOp) (a b : Value) : Value :=
  if a.isNull || b.isNull then .null
  else
    let n := a.toInteger
    let m := b.toInteger
    .integer (match op with
      | .and => hexInteger (unsigned n &&& unsigned m)
      | .or => hexInteger (unsigned n ||| unsigned m)
      | .shiftLeft => shift true n m
      | .shiftRight => shift false n m)

/-- The affinity that both operands of a comparison get, from the affinities that they have. -/
def commonAffinity (l r : Option Affinity) : Option Affinity :=
  let isNumeric (a : Affinity) : Bool := a = .numeric || a = .integer || a = .real
  match l, r with
  | some a, some b => if isNumeric a || isNumeric b then some .numeric else some .blob
  | some a, none => some a
  | none, b => b

def withNumericAffinity : Value → Value
  | .text s => (numeric? (.text s)).getD (.text s)
  | v => v

def withTextAffinity : Value → Value
  | .integer n => .text (intChars n)
  | .real x => .text (realText x)
  | v => v

def isText : Value → Bool
  | .text _ => true
  | _ => false

def compareWith (affinity : Option Affinity) (a b : Value) : Ordering :=
  match affinity with
  | some .numeric | some .integer | some .real =>
    (withNumericAffinity a).compare (withNumericAffinity b)
  | some .text =>
    if isText a || isText b then (withTextAffinity a).compare (withTextAffinity b) else a.compare b
  | _ => a.compare b

def CompareOp.holds (op : CompareOp) (o : Ordering) : Bool :=
  match op with
  | .equal => o == .eq
  | .notEqual => o != .eq
  | .less => o == .lt
  | .lessOrEqual => o != .gt
  | .greater => o == .gt
  | .greaterOrEqual => o != .lt

def compareTruth (op : CompareOp) (affinity : Option Affinity) (a b : Value) : Option Bool :=
  if a.isNull || b.isNull then none else some (op.holds (compareWith affinity a b))

def both (a b : Option Value) (f : Value → Value → Value) : Option Value :=
  match a, b with
  | some a, some b => some (f a b)
  | _, _ => none

def andTruth : Option Bool → Option Bool → Option Bool
  | some false, _ | _, some false => some false
  | some true, some true => some true
  | _, _ => none

def orTruth : Option Bool → Option Bool → Option Bool
  | some true, _ | _, some true => some true
  | some false, some false => some false
  | _, _ => none

def castTo (kind : Affinity) (v : Value) : Value :=
  if v.isNull then .null
  else match kind with
    | .blob => .blob v.chars
    | .text => .text v.chars
    | .integer => .integer v.toInteger
    | .real => .real v.toReal
    | .numeric =>
      match v with
      | .text s | .blob s =>
        let (x, shape) := readReal s
        let (n, fit) := readInteger s
        if (shape = .other || shape = .integer) && fit ≠ .tooLarge then .integer n
        else if isWhole x && inInt64 (truncate x) then .integer (truncate x)
        else .real x
      | v => v

namespace Expr

mutual
def value? : Expr → Option Value
  | .null => some .null
  | .integer n => some (wideInteger n)
  | .hex n => some (.integer (hexInteger n))
  | .real x => some (.real x)
  | .text s => some (.text s)
  | .blob s => some (.blob s)
  | .name s => (truthWord? s).map .ofBool
  | .countRows => some (.integer 1)
  | .negate (.integer n) =>
    some (if n ≤ span63 then .integer (-(n : Int)) else .real (-(readReal (digitChars n)).1))
  | .negate (.hex n) =>
    if hexInteger n = minInt then none else some (.integer (-(hexInteger n)))
  | .negate (.real x) => some (.real (-x))
  | .negate e => e.value?.map (applyArithmetic .subtract (.integer 0))
  | .plus e => e.value?
  | .bitNot e => e.value?.map fun v => if v.isNull then .null else .integer (-v.toInteger - 1)
  | .not e => e.value?.map fun v => .ofTruth (v.truth?.map (!·))
  | .arithmetic op l r => both l.value? r.value? (applyArithmetic op)
  | .bits op l r => both l.value? r.value? (applyBits op)
  | .compare op l r =>
    both l.value? r.value? fun a b =>
      .ofTruth (compareTruth op (commonAffinity l.affinity? r.affinity?) a b)
  | .same l r => both l.value? r.value? fun a b =>
    .ofBool (if a.isNull || b.isNull then a.isNull && b.isNull
      else compareWith (commonAffinity l.affinity? r.affinity?) a b == .eq)
  | .and l r => both l.value? r.value? fun a b => .ofTruth (andTruth a.truth? b.truth?)
  | .or l r => both l.value? r.value? fun a b => .ofTruth (orTruth a.truth? b.truth?)
  | .between e low high =>
    match e.value?, low.value?, high.value? with
    | some v, some a, some b =>
      some (.ofTruth (andTruth
        (compareTruth .greaterOrEqual (commonAffinity e.affinity? low.affinity?) v a)
        (compareTruth .lessOrEqual (commonAffinity e.affinity? high.affinity?) v b)))
    | _, _, _ => none
  | .among e items =>
    match e.value?, values? items with
    | some v, some vs =>
      some (if v.isNull then .null
        else if vs.any fun w => compareTruth .equal e.affinity? v w == some true then .integer 1
        else if vs.any Value.isNull then .null
        else .integer 0)
    | _, _ => none
  | .isNull e => e.value?.map fun v => .ofBool v.isNull
  | .hasTruth b e => e.value?.map fun v => .ofBool (v.truth? == some b)
  | .cast e kind => e.value?.map (castTo kind)
  | .choose none branches fallback =>
    match chosen? none none branches with
    | none => none
    | some (some v) => some v
    | some none => fallbackValue? fallback
  | .choose (some e) branches fallback =>
    match e.value? with
    | none => none
    | some v =>
      match chosen? (some v) e.affinity? branches with
      | none => none
      | some (some v) => some v
      | some none => fallbackValue? fallback
  | .call f args =>
    if f = "coalesce" || f = "ifnull" then firstValue? args
    else if f = "iif" then
      match args with
      | [test, yes, no] =>
        match test.value? with
        | none => none
        | some v => if v.truth? = some true then yes.value? else no.value?
      | _ => none
    else match values? args with
      | none => none
      | some vs => applyFunction f vs

def values? : List Expr → Option (List Value)
  | [] => some []
  | e :: rest =>
    match e.value?, values? rest with
    | some v, some vs => some (v :: vs)
    | _, _ => none

def firstValue? : List Expr → Option Value
  | [] => some .null
  | e :: rest =>
    match e.value? with
    | none => none
    | some v => if v.isNull then firstValue? rest else some v

def chosen? (operand : Option Value) (affinity : Option Affinity) : List (Expr × Expr) →
    Option (Option Value)
  | [] => some none
  | (test, e) :: rest =>
    match test.value? with
    | none => none
    | some t =>
      let holds : Bool := match operand with
        | none => t.truth? = some true
        | some v =>
          compareTruth .equal (commonAffinity affinity test.affinity?) v t = some true
      if holds then e.value?.map some else chosen? operand affinity rest

def fallbackValue? : Option Expr → Option Value
  | none => some .null
  | some e => e.value?
end

end Expr

def heightLimit : Nat := 1000

/-- The first of the results that a text asks for. All of them must have a value. -/
def evaluate? (text : List Char) : Option Value :=
  (readQuery? text).bind fun es =>
    if es.all fun e => e.height ≤ heightLimit && e.isMeaningful false then
      (Expr.values? es).bind List.head?
    else none

end TopicHub.Sql
