import TopicHub.Number.Layout
import TopicHub.Number.Reading

/-!
Whole parts and remainders of floating-point values, computed on the exact integer form.
-/

namespace TopicHub.Number

def isFinite (x : Float) : Bool := !x.isNaN && !x.isInf

/-- The part of a finite value in front of the point; the sign is kept. -/
def truncate (x : Float) : Int :=
  let b := Binary.ofFloat x
  let n : Nat := if 0 ≤ b.q then b.m * Nat.pow 2 b.q.toNat else b.m / Nat.pow 2 (-b.q).toNat
  if isNegative x then -n else n

def isWhole (x : Float) : Bool :=
  let b := Binary.ofFloat x
  isFinite x && (0 ≤ b.q || b.m % Nat.pow 2 (-b.q).toNat = 0)

def toInt64 (x : Float) : Int :=
  if x.isNaN then 0
  else if x.isInf then (if isNegative x then minInt else maxInt)
  else max minInt (min maxInt (truncate x))

def ofInt (n : Int) : Float := if n < 0 then -(Float.ofNat n.natAbs) else Float.ofNat n.natAbs

/-- The remainder of a division that rounds towards zero. It has the sign of `x` and is exact. -/
def remainder (x y : Float) : Float :=
  if x.isNaN || y.isNaN || x.isInf || y == 0.0 then 0.0 / 0.0
  else if y.isInf || x == 0.0 then x
  else
    let a := Binary.ofFloat x
    let b := Binary.ofFloat y
    let q := min a.q b.q
    let r := a.m * Nat.pow 2 (a.q - q).toNat % (b.m * Nat.pow 2 (b.q - q).toNat)
    let size := (Float.ofNat r).scaleB q
    if isNegative x then -size else size

def intText (n : Int) : String := toString n

end TopicHub.Number
