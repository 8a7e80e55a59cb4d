import TopicHub.Number.Shortest

/-!
Decimal digits laid out as text: positional notation, and the notation with an exponent.
-/

namespace TopicHub.Number

def digitChars (n : Nat) : List Char := (toString n).toList

def zeros (n : Nat) : List Char := List.replicate n '0'

def Decimal.leading (d : Decimal) : Int := (digitChars d.digits).length - 1 + d.exp

def Decimal.positional (d : Decimal) (whole : List Char) : List Char :=
  let ds := digitChars d.digits
  if 0 ≤ d.exp then ds ++ zeros d.exp.toNat ++ whole
  else
    let fraction := (-d.exp).toNat
    if fraction < ds.length then
      ds.take (ds.length - fraction) ++ '.' :: ds.drop (ds.length - fraction)
    else '0' :: '.' :: zeros (fraction - ds.length) ++ ds

def Decimal.mantissa (d : Decimal) (whole : List Char) : List Char :=
  match digitChars d.digits with
  | [] => []
  | [c] => c :: whole
  | c :: rest => c :: '.' :: rest

def intChars (n : Int) : List Char := (toString n).toList

/-- Every digit of the value, never an exponent, no fraction on whole values; of two equally short
and equally close decimals the greater. -/
def plainText (x : Float) : String :=
  if x.isNaN then "NaN"
  else
    let sign := if isNegative x then ['-'] else []
    if x.isInf then String.ofList (sign ++ "inf".toList)
    else String.ofList (sign ++ ((Binary.ofFloat x).shortest .up).positional [])

end TopicHub.Number
