import TopicHub.Sql.Value

/-!
Patterns: those with per cent signs and underscores, which ignore the case of ASCII letters, and those
with stars, question marks and sets in brackets, which do not.
-/

namespace TopicHub.Sql.Pattern

def tailsOf : List Char → List (List Char)
  | [] => [[]]
  | c :: s => (c :: s) :: tailsOf s

def sameLetter (a b : Char) : Bool :=
  a = b || a.toNat < 0x80 && b.toNat < 0x80 && a.toLower = b.toLower

def like (escape : Option Char) : (pattern text : List Char) → Bool
  | [], s => s.isEmpty
  | c :: p, s =>
    if some c = escape then
      match p, s with
      | d :: p, b :: s => sameLetter d b && like escape p s
      | _, _ => false
    else if c = '%' then (tailsOf s).any (like escape p)
    else match s with
      | [] => false
      | b :: s => (c = '_' || sameLetter c b) && like escape p s

def setHolds (c : Char) : (seen : Bool) → (previous : Option Char) → List Char →
    Option (Bool × List Char)
  | _, _, [] => none
  | seen, _, ']' :: p => some (seen, p)
  | seen, some low, '-' :: high :: p =>
    if high = ']' then some (seen || c = '-', p)
    else setHolds c (seen || low ≤ c && c ≤ high) none p
  | seen, _, d :: p => setHolds c (seen || c = d) (some d) p

def inSet (c : Char) (p : List Char) : Option (Bool × List Char) :=
  let (inverted, p) := match p with
    | '^' :: p => (true, p)
    | p => (false, p)
  let result := match p with
    | ']' :: p => setHolds c (c = ']') none p
    | p => setHolds c false none p
  result.map fun (seen, rest) => (seen != inverted, rest)

def globWithin : Nat → (pattern text : List Char) → Bool
  | _, [], s => s.isEmpty
  | 0, _ :: _, _ => false
  | fuel + 1, c :: p, s =>
    if c = '*' then (tailsOf s).any (globWithin fuel p)
    else match s with
      | [] => false
      | b :: s =>
        if c = '?' then globWithin fuel p s
        else if c = '[' then
          match inSet b p with
          | some (true, p) => globWithin fuel p s
          | _ => false
        else c = b && globWithin fuel p s

def glob (pattern text : List Char) : Bool := globWithin pattern.length pattern text

end TopicHub.Sql.Pattern
