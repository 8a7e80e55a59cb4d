import TopicHub.Json.Path
import TopicHub.Json.Reader

/-!
Reading JSON paths: a dollar sign and segments in brackets or after a point. Bracket groups hold
names in quotes of either kind, indexes, slices, the wildcard and filters, separated by commas.
-/

namespace TopicHub.Json

open TopicHub.Number TopicHub.Text

abbrev Reading (α : Type) := Option (α × List Char)

def readName (quote : Char) : List Char → Reading (List Char)
  | [] => none
  | '\\' :: 'u' :: a :: b :: c :: d :: '\\' :: 'u' :: e :: f :: g :: h :: s =>
    match hexQuad? a b c d, hexQuad? e f g h with
    | some n, some m =>
      if isLeadSurrogate n && isTrailSurrogate m then
        (readName quote s).map fun (cs, rest) => (pairSurrogates n m :: cs, rest)
      else if isLeadSurrogate n || isTrailSurrogate n then none
      else
        (readName quote ('\\' :: 'u' :: e :: f :: g :: h :: s)).map fun (cs, rest) =>
          (Char.ofNat n :: cs, rest)
    | _, _ => none
  | '\\' :: 'u' :: a :: b :: c :: d :: s =>
    match hexQuad? a b c d with
    | some n =>
      if isLeadSurrogate n || isTrailSurrogate n then none
      else (readName quote s).map fun (cs, rest) => (Char.ofNat n :: cs, rest)
    | none => none
  | '\\' :: e :: s =>
    let plain := if e = quote then some quote else if e = '"' then none else shortEscape? e
    match plain with
    | some c => (readName quote s).map fun (cs, rest) => (c :: cs, rest)
    | none => none
  | c :: s =>
    if c = quote then some ([], s)
    else if c < ' ' || c = '\\' then none
    else (readName quote s).map fun (cs, rest) => (c :: cs, rest)

def isNameStart (c : Char) : Bool := c.isAlpha || c = '_' || 0x80 ≤ c.toNat

def isNamePart (c : Char) : Bool := isNameStart c || isDigit c

/-- An integer within 53 bits, without needless zeros and without a negative zero. -/
def readIndex (s : List Char) : Reading Int :=
  let (negative, s) := match s with
    | '-' :: t => (true, t)
    | t => (false, t)
  match readWhole s with
  | none => none
  | some (ds, rest) =>
    let n := natFrom 0 ds
    if negative && n = 0 then none
    else if span53 ≤ n then none
    else some (if negative then -n else n, rest)

def readIndex? (s : List Char) : Option Int × List Char :=
  match readIndex s with
  | some (i, rest) => (some i, rest)
  | none => (none, s)

def readSlice (start : Option Int) (s : List Char) : Reading Selector :=
  match skipBlank s with
  | ':' :: s =>
    let (stop, s) := readIndex? (skipBlank s)
    match skipBlank s with
    | ':' :: t =>
      let (step, t) := readIndex? (skipBlank t)
      some (.slice start stop (step.getD 1), t)
    | _ => some (.slice start stop 1, s)
  | _ => none

def readComparison (s : List Char) : Reading Comparison :=
  match s with
  | '=' :: '=' :: t => some (.equal, t)
  | '!' :: '=' :: t => some (.notEqual, t)
  | '<' :: '=' :: t => some (.lessOrEqual, t)
  | '>' :: '=' :: t => some (.greaterOrEqual, t)
  | '<' :: t => some (.less, t)
  | '>' :: t => some (.greater, t)
  | _ => none

def isSingular : List Segment → Bool
  | [] => true
  | .child [.name _] :: rest => isSingular rest
  | .child [.index _] :: rest => isSingular rest
  | _ :: _ => false

def readWord (s : List Char) : List Char × List Char := (s.takeWhile isNamePart, s.dropWhile isNamePart)

mutual
/-- As many segments as follow each other. The first argument bounds the nesting, here and below. -/
def readSegments : Nat → List Char → Option (List Segment × List Char)
  | 0, _ => none
  | fuel + 1, s =>
    let continued (segment : Segment) (rest : List Char) :=
      (readSegments fuel rest).map fun (more, rest) => (segment :: more, rest)
    match skipBlank s with
    | '[' :: t =>
      match readSelectors fuel t with
      | some (selectors, rest) => continued (.child selectors) rest
      | none => none
    | '.' :: '.' :: '[' :: t =>
      match readSelectors fuel t with
      | some (selectors, rest) => continued (.descendant selectors) rest
      | none => none
    | '.' :: '.' :: '*' :: t => continued (.descendant [.wildcard]) t
    | '.' :: '.' :: c :: t =>
      if isNameStart c then
        continued (.descendant [.name (String.ofList (c :: (readWord t).1))]) (readWord t).2
      else none
    | '.' :: '*' :: t => continued (.child [.wildcard]) t
    | '.' :: c :: t =>
      if isNameStart c then
        continued (.child [.name (String.ofList (c :: (readWord t).1))]) (readWord t).2
      else none
    | _ => some ([], s)

def readSelectors : Nat → List Char → Option (List Selector × List Char)
  | 0, _ => none
  | fuel + 1, s =>
    match readSelector fuel (skipBlank s) with
    | none => none
    | some (selector, rest) =>
      match skipBlank rest with
      | ']' :: rest => some ([selector], rest)
      | ',' :: rest => (readSelectors fuel rest).map fun (more, rest) => (selector :: more, rest)
      | _ => none

def readSelector : Nat → List Char → Option (Selector × List Char)
  | 0, _ => none
  | fuel + 1, s =>
    match s with
    | '*' :: t => some (.wildcard, t)
    | '?' :: t => (readEither fuel (skipBlank t)).map fun (f, rest) => (.filter f, rest)
    | c :: t =>
      if c = '\'' || c = '"' then
        (readName c t).map fun (key, rest) => (.name (String.ofList key), rest)
      else
        let (start, rest) := readIndex? s
        match readSlice start rest, start with
        | some found, _ => some found
        | none, some i => some (.index i, rest)
        | none, none => none
    | [] => none

def readEither : Nat → List Char → Option (Filter × List Char)
  | 0, _ => none
  | fuel + 1, s =>
    match readBoth fuel s with
    | none => none
    | some (l, rest) =>
      match skipBlank rest with
      | '|' :: '|' :: t => (readEither fuel (skipBlank t)).map fun (r, rest) => (.either l r, rest)
      | _ => some (l, rest)

def readBoth : Nat → List Char → Option (Filter × List Char)
  | 0, _ => none
  | fuel + 1, s =>
    match readTest fuel s with
    | none => none
    | some (l, rest) =>
      match skipBlank rest with
      | '&' :: '&' :: t => (readBoth fuel (skipBlank t)).map fun (r, rest) => (.both l r, rest)
      | _ => some (l, rest)

def readTest : Nat → List Char → Option (Filter × List Char)
  | 0, _ => none
  | fuel + 1, s =>
    match readOperand fuel s with
    | some (l, rest) =>
      match readComparison (skipBlank rest) with
      | some (op, t) =>
        (readOperand fuel (skipBlank t)).map fun (r, rest) => (.compare op l r, rest)
      | none => readUnary fuel s
    | none => readUnary fuel s

def readUnary : Nat → List Char → Option (Filter × List Char)
  | 0, _ => none
  | fuel + 1, s =>
    match s with
    | '!' :: t => (readUnary fuel (skipBlank t)).map fun (f, rest) => (.negate f, rest)
    | '(' :: t =>
      match readEither fuel (skipBlank t) with
      | some (f, rest) =>
        match skipBlank rest with
        | ')' :: rest => some (f, rest)
        | _ => none
      | none => none
    | '@' :: t => (readSegments fuel t).map fun (segments, rest) => (.found false segments, rest)
    | '$' :: t => (readSegments fuel t).map fun (segments, rest) => (.found true segments, rest)
    | _ => none

def readOperand : Nat → List Char → Option (Operand × List Char)
  | 0, _ => none
  | fuel + 1, s =>
    let singular (fromRoot : Bool) (t : List Char) :=
      match readSegments fuel t with
      | some (segments, rest) =>
        if isSingular segments then some (Operand.query fromRoot segments, rest) else none
      | none => none
    match s with
    | '@' :: t => singular false t
    | '$' :: t => singular true t
    | [] => none
    | c :: t =>
      if c = '\'' || c = '"' then
        (readName c t).map fun (text, rest) => (.literal (.string (String.ofList text)), rest)
      else if c = '-' || isDigit c then
        match readNumeral s with
        | some (n, rest) => n.value?.map fun v => (.literal (.number v), rest)
        | none => none
      else
        let (word, rest) := readWord s
        match String.ofList word with
        | "true" => some (.literal (.bool true), rest)
        | "false" => some (.literal (.bool false), rest)
        | "null" => some (.literal .null, rest)
        | "length" =>
          match rest with
          | '(' :: rest =>
            match readOperand fuel (skipBlank rest) with
            | some (arg, rest) =>
              match skipBlank rest with
              | ')' :: rest => some (.length arg, rest)
              | _ => none
            | none => none
          | _ => none
        | "count" => readNodes fuel rest Operand.count
        | "value" => readNodes fuel rest Operand.single
        | _ => none

def readNodes : Nat → List Char → (Bool → List Segment → Operand) → Option (Operand × List Char)
  | 0, _, _ => none
  | fuel + 1, s, make =>
    let closed (fromRoot : Bool) (t : List Char) :=
      match readSegments fuel t with
      | some (segments, rest) =>
        match skipBlank rest with
        | ')' :: rest => some (make fromRoot segments, rest)
        | _ => none
      | none => none
    match s with
    | '(' :: t =>
      match skipBlank t with
      | '@' :: t => closed false t
      | '$' :: t => closed true t
      | _ => none
    | _ => none
end

def Path.read? (text : List Char) : Option Path :=
  match text with
  | '$' :: s =>
    match readSegments (4 * s.length + 8) s with
    | some (segments, []) => some ⟨segments⟩
    | _ => none
  | _ => none

end TopicHub.Json
