import TopicHub.Yaml.Layout

/-!
Trees of nodes, as a YAML text writes them: scalars not yet read as values, tags in full, and anchors
and aliases by number.
-/

namespace TopicHub.Yaml

inductive Node where
  | alias (number : Nat)
  | scalar (anchor : Option Nat) (tag : Option (List Char)) (isPlain : Bool) (text : List Char)
  | sequence (anchor : Option Nat) (tag : Option (List Char)) (items : List Node)
  | mapping (anchor : Option Nat) (tag : Option (List Char)) (entries : List (Node × Node))
  deriving Repr, Inhabited

namespace Node

def nothing : Node := .scalar none none true []

mutual
/-- The size of a tree: one for each leaf and two for each collection. -/
def size : Node → Nat
  | .alias _ => 1
  | .scalar .. => 1
  | .sequence _ _ items => 2 + sizeOfItems items
  | .mapping _ _ entries => 2 + sizeOfEntries entries

def sizeOfItems : List Node → Nat
  | [] => 0
  | n :: rest => size n + sizeOfItems rest

def sizeOfEntries : List (Node × Node) → Nat
  | [] => 0
  | (k, v) :: rest => size k + size v + sizeOfEntries rest
end

def noteAnchor (node : Node) : Option Nat → List (Nat × Node)
  | none => []
  | some n => [(n, node)]

mutual
def anchored : Node → List (Nat × Node)
  | .alias _ => []
  | .scalar a tag isPlain text => noteAnchor (.scalar a tag isPlain text) a
  | .sequence a tag items => noteAnchor (.sequence a tag items) a ++ anchoredItems items
  | .mapping a tag entries => noteAnchor (.mapping a tag entries) a ++ anchoredEntries entries

def anchoredItems : List Node → List (Nat × Node)
  | [] => []
  | n :: rest => anchored n ++ anchoredItems rest

def anchoredEntries : List (Node × Node) → List (Nat × Node)
  | [] => []
  | (k, v) :: rest => anchored k ++ anchored v ++ anchoredEntries rest
end

/-- The node that an alias stands for: of those with its number the last. -/
def byNumber? (nodes : List (Nat × Node)) (number : Nat) : Option Node :=
  (nodes.reverse.find? fun e => e.1 = number).map Prod.snd

end Node

structure Reading where
  tokens : List Token
  anchors : List (List Char × Nat)

abbrev ReadM := StateT Reading Option

namespace ReadM

def peek : ReadM (Option Token) := return (← get).tokens.head?

def drop : ReadM Unit := modify fun r => { r with tokens := r.tokens.drop 1 }

def peekIs (t : Token) : ReadM Bool := return (← peek) = some t

def peekIn (ts : List Token) : ReadM Bool := do
  let next ← peek
  pure (ts.any fun t => next = some t)

def expect (t : Token) : ReadM Unit := do
  if ← peekIs t then drop else failure

/-- An anchor takes the number of names so far. A name that is given again is taken from its
anchor. -/
def nameAnchor (name : List Char) : ReadM Nat := do
  let r ← get
  let number := r.anchors.length
  set { r with anchors := (name, number) :: r.anchors.filter fun a => a.1 ≠ name }
  pure number

def anchorOf (name : List Char) : ReadM Nat := do
  match (← get).anchors.find? fun a => a.1 = name with
  | some (_, number) => pure number
  | none => failure

end ReadM

abbrev Handles := List (List Char × List Char)

def standardHandles : Handles := [(['!'], ['!']), (['!', '!'], "tag:yaml.org,2002:".toList)]

def fullTag? (handles : Handles) (handle suffix : List Char) : Option (List Char) :=
  if handle.isEmpty then some suffix
  else (handles.find? fun h => h.1 = handle).map fun h => h.2 ++ suffix

namespace Node

open ReadM

structure Properties where
  anchor : Option (List Char)
  tag : Option (List Char)

def readTag (handles : Handles) : ReadM (Option (List Char)) := do
  match ← peek with
  | some (.tag handle suffix) =>
    drop
    match fullTag? handles handle suffix with
    | some tag => pure (some tag)
    | none => failure
  | _ => pure none

def readAnchor : ReadM (Option (List Char)) := do
  match ← peek with
  | some (.anchor name) => drop; pure (some name)
  | _ => pure none

def readProperties (handles : Handles) : ReadM Properties := do
  match ← readAnchor with
  | some name => pure ⟨some name, ← readTag handles⟩
  | none =>
    let tag ← readTag handles
    pure ⟨← readAnchor, tag⟩

def numbered (p : Properties) : ReadM (Option Nat) :=
  match p.anchor with
  | none => pure none
  | some name => some <$> nameAnchor name

def scalarTag (tag : Option (List Char)) : Option (List Char) :=
  if tag = some ['!'] then none else tag

mutual
/-- Reads a node. The collections that indentation marks stand only in a block, and entries without an
indentation of their own only where those are admitted. The first numeric argument bounds the depth
and the number of entries. -/
def read (handles : Handles) : Nat → (block entries : Bool) → ReadM Node
  | 0, _, _ => failure
  | fuel + 1, block, entries => do
    match ← peek with
    | some (.alias name) => drop; pure (.alias (← anchorOf name))
    | _ =>
      let p ← readProperties handles
      let number ← numbered p
      match ← peek with
      | some (.scalar isPlain text) =>
        drop
        pure (.scalar number (scalarTag p.tag) isPlain text)
      | some .flowSequence =>
        drop
        pure (.sequence number p.tag (← readFlowItems handles fuel true))
      | some .flowMapping =>
        drop
        pure (.mapping number p.tag (← readFlowEntries handles fuel true))
      | t =>
        if entries && t = some .blockEntry then
          pure (.sequence number p.tag (← readEntries handles fuel))
        else if block && t = some .blockSequence then
          drop
          pure (.sequence number p.tag (← readItems handles fuel))
        else if block && t = some .blockMapping then
          drop
          pure (.mapping number p.tag (← readPairs handles fuel))
        else if p.anchor.isSome || p.tag.isSome then pure (.scalar number p.tag true [])
        else failure

def readUnless (handles : Handles) : Nat → (block entries : Bool) → List Token → ReadM Node
  | 0, _, _, _ => failure
  | fuel + 1, block, entries, ends => do
    if ← peekIn ends then pure nothing else read handles fuel block entries

def readItems (handles : Handles) : Nat → ReadM (List Node)
  | 0 => failure
  | fuel + 1 => do
    if ← peekIs .blockEnd then drop; pure []
    else
      expect .blockEntry
      let item ← readUnless handles fuel true false [.blockEntry, .blockEnd]
      return item :: (← readItems handles fuel)

def readEntries (handles : Handles) : Nat → ReadM (List Node)
  | 0 => failure
  | fuel + 1 => do
    if ← peekIs .blockEntry then
      drop
      let item ← readUnless handles fuel true false [.blockEntry, .key, .value, .blockEnd]
      return item :: (← readEntries handles fuel)
    else pure []

def readPairs (handles : Handles) : Nat → ReadM (List (Node × Node))
  | 0 => failure
  | fuel + 1 => do
    if ← peekIs .blockEnd then drop; pure []
    else
      expect .key
      let key ← readUnless handles fuel true true [.key, .value, .blockEnd]
      let value ← readValue handles fuel true [.key, .value, .blockEnd]
      return (key, value) :: (← readPairs handles fuel)

def readValue (handles : Handles) : Nat → (block : Bool) → List Token → ReadM Node
  | 0, _, _ => failure
  | fuel + 1, block, ends => do
    if ← peekIs .value then
      drop
      readUnless handles fuel block block ends
    else pure nothing

def readFlowItems (handles : Handles) : Nat → (first : Bool) → ReadM (List Node)
  | 0, _ => failure
  | fuel + 1, first => do
    if !first && !(← peekIs .flowSequenceEnd) then expect .flowEntry
    if ← peekIs .flowSequenceEnd then drop; pure []
    else
      let item ← readFlowItem handles fuel
      return item :: (← readFlowItems handles fuel false)

/-- An item within square brackets may be a single pair. The token behind the mark of a missing key is
passed over. -/
def readFlowItem (handles : Handles) : Nat → ReadM Node
  | 0 => failure
  | fuel + 1 => do
    if ← peekIs .key then
      drop
      let missing ← peekIn [.value, .flowEntry, .flowSequenceEnd]
      if missing then drop
      let key ← if missing then pure nothing else read handles fuel false false
      let value ← readValue handles fuel false [.flowEntry, .flowSequenceEnd]
      pure (.mapping none none [(key, value)])
    else read handles fuel false false

def readFlowEntries (handles : Handles) : Nat → (first : Bool) → ReadM (List (Node × Node))
  | 0, _ => failure
  | fuel + 1, first => do
    if !first && !(← peekIs .flowMappingEnd) then expect .flowEntry
    if ← peekIs .flowMappingEnd then drop; pure []
    else
      let entry ← readFlowEntry handles fuel
      return entry :: (← readFlowEntries handles fuel false)

def readFlowEntry (handles : Handles) : Nat → ReadM (Node × Node)
  | 0 => failure
  | fuel + 1 => do
    if ← peekIs .key then
      drop
      let key ← readUnless handles fuel false false [.value, .flowEntry, .flowMappingEnd]
      return (key, ← readValue handles fuel false [.flowEntry, .flowMappingEnd])
    else return (← read handles fuel false false, nothing)
end

/-- What the directives in front of a document say. -/
structure Directives where
  versioned : Bool
  handles : Handles

/-- At most one version, which must be 1.1 or 1.2, and each handle once. -/
def readDirectives? : Directives → List Token → Option (Directives × List Token)
  | d, .version major minor :: rest =>
    if d.versioned || major ≠ 1 || (minor ≠ 1 && minor ≠ 2) then none
    else readDirectives? { d with versioned := true } rest
  | d, .handle name meaning :: rest =>
    if d.handles.any fun h => h.1 = name then none
    else readDirectives? { d with handles := d.handles ++ [(name, meaning)] } rest
  | d, rest => some (d, rest)

def startsDirectives : List Token → Bool
  | .version .. :: _ => true
  | .handle .. :: _ => true
  | _ => false

def readContent (handles : Handles) (fuel : Nat) : ReadM Node := do
  let tokens := (← get).tokens
  if tokens.isEmpty || startsDirectives tokens || (← peekIn [.documentStart, .documentEnd]) then
    pure nothing
  else read handles fuel true false

def ofTokens? (tokens : List Token) : Option (Option Node) := do
  if tokens.isEmpty then some none
  else
    let (d, rest) ← readDirectives? ⟨false, []⟩ tokens
    let handles := d.handles ++ standardHandles
    let fuel := 8 * tokens.length + 8
    let (node, after) ← match rest with
      | .documentStart :: rest => (readContent handles fuel).run ⟨rest, []⟩
      | _ =>
        if startsDirectives tokens then none else (read handles fuel true false).run ⟨rest, []⟩
    if (after.tokens.dropWhile (· = .documentEnd)).isEmpty then pure (some node) else none

def ofText? (s : String) : Option (Option Node) := (Token.ofText? s.toList).bind ofTokens?

end Node

end TopicHub.Yaml
