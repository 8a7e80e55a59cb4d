import TopicHub.Number.Span

/-!
The decimal with the fewest digits that reads back to a given binary64 value, and the exact ratio
that the value stands for. All arithmetic is on integers; the value enters through its bits.
-/

namespace TopicHub.Number

structure Binary where
  m : Nat
  q : Int
  narrowBelow : Bool
  deriving DecidableEq, Repr

def Binary.ofFloat (x : Float) : Binary :=
  let bits := x.toBits.toNat
  let e : Nat := bits / span52 % span11
  let f : Nat := bits % span52
  if e = 0 then ⟨f, -1074, false⟩ else ⟨span52 + f, (e : Int) - 1075, f = 0 && e > 1⟩

structure Decimal where
  digits : Nat
  exp : Int
  deriving DecidableEq, Repr

inductive Tie where
  | up
  | toEven
  deriving DecidableEq, Repr

def powRatio (base : Nat) (e : Int) : Nat × Nat := (Nat.pow base e.toNat, Nat.pow base (-e).toNat)

def decimalLt (a : Nat) (i : Int) (n : Nat) (j : Int) : Bool :=
  let (tn, td) := powRatio 10 i
  let (bn, bd) := powRatio 2 j
  a * tn * bd < n * bn * td

def binaryLt (n : Nat) (j : Int) (a : Nat) (i : Int) : Bool :=
  let (tn, td) := powRatio 10 i
  let (bn, bd) := powRatio 2 j
  n * bn * td < a * tn * bd

/-- Whether a decimal lies among the reals that round to the value. The ends of that interval
belong to it exactly when `m` is even. -/
def Binary.readsBack (x : Binary) (d : Decimal) : Bool :=
  let low := 4 * x.m - (if x.narrowBelow then 1 else 2)
  let high := 4 * x.m + 2
  if x.m % 2 = 0 then
    !decimalLt d.digits d.exp low (x.q - 2) && !binaryLt high (x.q - 2) d.digits d.exp
  else
    binaryLt low (x.q - 2) d.digits d.exp && decimalLt d.digits d.exp high (x.q - 2)

/-- The least `k` with `m * 2 ^ q < 10 ^ k`: an estimate from the binary logarithm, corrected. -/
def Binary.scale (x : Binary) : Int :=
  let estimate := ((x.m.log2 : Int) + x.q) * 30103 / 100000 - 1
  match (List.range 5).find? fun i : Nat => binaryLt x.m x.q 1 (estimate + (i : Int)) with
  | some i => estimate + (i : Int)
  | none => estimate + 5

def Binary.floorAt (x : Binary) (e : Int) : Nat :=
  let (tn, td) := powRatio 10 e
  let (bn, bd) := powRatio 2 x.q
  x.m * bn * td / (bd * tn)

def Binary.onGrid? (x : Binary) (tie : Tie) (e : Int) : Option Decimal :=
  let low := x.floorAt e
  let below : Decimal := ⟨low, e⟩
  let above : Decimal := ⟨low + 1, e⟩
  match x.readsBack below, x.readsBack above with
  | true, false => some below
  | false, true => some above
  | false, false => none
  | true, true =>
    if decimalLt (2 * low + 1) e (2 * x.m) x.q then some above
    else if binaryLt (2 * x.m) x.q (2 * low + 1) e then some below
    else match tie with
      | .up => some above
      | .toEven => some (if low % 2 = 0 then below else above)

def Decimal.stripZeros (d : Decimal) : Decimal :=
  if d.digits = 0 then ⟨0, 0⟩
  else if d.digits % 10 = 0 then Decimal.stripZeros ⟨d.digits / 10, d.exp + 1⟩
  else d
termination_by d.digits
decreasing_by omega

/-- The fewest digits that read back: the coarsest decimal grid on which a neighbour of the value
does. Seventeen digits suffice; beyond them the exact value is given. -/
def Binary.shortest (x : Binary) (tie : Tie) : Decimal :=
  if x.m = 0 then ⟨0, 0⟩
  else
    let k := x.scale
    match (List.range 17).findSome? fun i => x.onGrid? tie (k - (i + 1 : Nat)) with
    | some d => d.stripZeros
    | none => ⟨x.m * Nat.pow 2 x.q.toNat * Nat.pow 5 (-x.q).toNat, min x.q 0⟩

def Binary.significant (x : Binary) (n : Nat) : Decimal :=
  if x.m = 0 then ⟨0, 0⟩
  else
    let e := x.scale - n
    let low := x.floorAt e
    if decimalLt (2 * low + 1) e (2 * x.m) x.q || !binaryLt (2 * x.m) x.q (2 * low + 1) e then
      ⟨low + 1, e⟩
    else ⟨low, e⟩

def isNegative (x : Float) : Bool := x.toBits.toNat / span63 = 1

end TopicHub.Number
