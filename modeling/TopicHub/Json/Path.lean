import TopicHub.Json.Value

/-!
JSON path queries. A query is a list of segments; each segment maps the nodes found so far to the
nodes below them that its selectors pick, in order and with repetition.
-/

namespace TopicHub.Json

inductive Comparison where
  | equal
  | notEqual
  | less
  | lessOrEqual
  | greater
  | greaterOrEqual
  deriving DecidableEq, Repr

mutual
inductive Selector where
  | name (key : String)
  | wildcard
  | index (i : Int)
  | slice (start stop : Option Int) (step : Int)
  | filter (test : Filter)

inductive Segment where
  | child (selectors : List Selector)
  | descendant (selectors : List Selector)

inductive Filter where
  | either (l r : Filter)
  | both (l r : Filter)
  | negate (f : Filter)
  | compare (op : Comparison) (l r : Operand)
  | found (fromRoot : Bool) (segments : List Segment)

inductive Operand where
  | literal (v : Value)
  | query (fromRoot : Bool) (segments : List Segment)
  | length (arg : Operand)
  | count (fromRoot : Bool) (segments : List Segment)
  | single (fromRoot : Bool) (segments : List Segment)
end

deriving instance Repr for Selector, Segment, Filter, Operand

def Value.children : Value → List Value
  | .array items => items
  | .object fields => fields.map (·.2)
  | _ => []

mutual
def Value.descendants : Value → List Value
  | .array items => .array items :: descendantsOf items
  | .object fields => .object fields :: descendantsOfFields fields
  | v => [v]

def descendantsOf : List Value → List Value
  | [] => []
  | v :: rest => v.descendants ++ descendantsOf rest

def descendantsOfFields : List (String × Value) → List Value
  | [] => []
  | (_, v) :: rest => v.descendants ++ descendantsOfFields rest
end

def position (length : Nat) (i : Int) : Int := if 0 ≤ i then i else length + i

def item? (items : List Value) (i : Int) : Option Value :=
  let p := position items.length i
  if 0 ≤ p then items[p.toNat]? else none

def slice (items : List Value) (start stop : Option Int) (step : Int) : List Value :=
  let n := items.length
  let clamp (low high i : Int) := max low (min high i)
  let positions : List Int :=
    if 0 < step then
      let low := clamp 0 n (position n (start.getD 0))
      let high := clamp 0 n (position n (stop.getD n))
      (List.range n).filterMap fun i : Nat =>
        let p : Int := i
        if low ≤ p && p < high && (p - low) % step = 0 then some p else none
    else if step < 0 then
      let high := clamp (-1) (n - 1) (position n (start.getD (n - 1)))
      let low := clamp (-1) (n - 1) ((stop.map (position n)).getD (-1))
      (List.range n).reverse.filterMap fun i : Nat =>
        let p : Int := i
        if low < p && p ≤ high && (high - p) % (-step) = 0 then some p else none
    else []
  positions.filterMap fun p => items[p.toNat]?

def Number.toFloat : Number → Float
  | .int n => Number.ofInt n
  | .float x => x

def Number.eq : Number → Number → Bool
  | .int a, .int b => a = b
  | a, b => a.toFloat == b.toFloat

def Number.lt : Number → Number → Bool
  | .int a, .int b => a < b
  | a, b => a.toFloat < b.toFloat

mutual
/-- Equality of documents; the order of the keys does not count and numbers compare by value. -/
def Value.same : Value → Value → Bool
  | .null, .null => true
  | .bool a, .bool b => a = b
  | .number a, .number b => a.eq b
  | .string a, .string b => a = b
  | .array as, .array bs => sameItems as bs
  | .object as, .object bs => as.length = bs.length && sameFields as bs
  | _, _ => false

def sameItems : List Value → List Value → Bool
  | [], [] => true
  | a :: as, b :: bs => a.same b && sameItems as bs
  | _, _ => false

def sameFields : List (String × Value) → List (String × Value) → Bool
  | [], _ => true
  | (k, a) :: as, bs =>
    (match lookup? k bs with
      | some b => a.same b
      | none => false) && sameFields as bs
end

/-- Operands may be absent; two absent ones are equal. Only numbers and texts have an order. -/
def Comparison.holds (op : Comparison) (l r : Option Value) : Bool :=
  let eq := match l, r with
    | none, none => true
    | some a, some b => a.same b
    | _, _ => false
  let lt (l r : Option Value) := match l, r with
    | some (.number a), some (.number b) => a.lt b
    | some (.string a), some (.string b) => a < b
    | _, _ => false
  match op with
  | .equal => eq
  | .notEqual => !eq
  | .less => lt l r
  | .lessOrEqual => lt l r || eq
  | .greater => lt r l
  | .greaterOrEqual => lt r l || eq

def Value.length? : Value → Option Value
  | .string s => some (int s.length)
  | .array items => some (int items.length)
  | .object fields => some (int fields.length)
  | _ => none

mutual
def Selector.select (root : Value) : Selector → Value → List Value
  | .name key, v => (v.field? key).toList
  | .wildcard, v => v.children
  | .index i, .array items => (item? items i).toList
  | .index _, _ => []
  | .slice start stop step, .array items => slice items start stop step
  | .slice .., _ => []
  | .filter test, v => v.children.filter fun child => test.holds root child

def selectAll (root : Value) : List Selector → Value → List Value
  | [], _ => []
  | s :: rest, v => s.select root v ++ selectAll root rest v

def Segment.select (root : Value) : Segment → Value → List Value
  | .child selectors, v => selectAll root selectors v
  | .descendant selectors, v => v.descendants.flatMap fun d => selectAll root selectors d

def follow (root : Value) : List Segment → List Value → List Value
  | [], nodes => nodes
  | s :: rest, nodes => follow root rest (nodes.flatMap fun v => s.select root v)

def Filter.holds (root : Value) : Filter → Value → Bool
  | .either l r, v => l.holds root v || r.holds root v
  | .both l r, v => l.holds root v && r.holds root v
  | .negate f, v => !f.holds root v
  | .compare op l r, v => op.holds (l.value? root v) (r.value? root v)
  | .found fromRoot segments, v => !(follow root segments [if fromRoot then root else v]).isEmpty

def Operand.value? (root : Value) : Operand → Value → Option Value
  | .literal lit, _ => some lit
  | .query fromRoot segments, v => (follow root segments [if fromRoot then root else v]).head?
  | .length arg, v => (arg.value? root v).bind Value.length?
  | .count fromRoot segments, v =>
    some (int (follow root segments [if fromRoot then root else v]).length)
  | .single fromRoot segments, v =>
    match follow root segments [if fromRoot then root else v] with
    | [node] => some node
    | _ => none
end

structure Path where
  segments : List Segment

def Path.nodes (path : Path) (document : Value) : List Value :=
  follow document path.segments [document]

end TopicHub.Json
