import TopicHub.Yaml.Source

/-!
Gaps between the words of a scalar. A single line break in a gap becomes a space, more of them lose the
first, and blanks around them go away.
-/

namespace TopicHub.Yaml

structure Gap where
  blanks : List Char
  crossed : Bool
  first : List Char
  more : List Char
  deriving DecidableEq, Repr

namespace Gap

def empty : Gap := ⟨[], false, [], []⟩

/-- The gap behind an escaped line break, which leaves nothing of the break. -/
def escaped : Gap := ⟨[], true, [], []⟩

def addBreak (g : Gap) (c : Char) : Gap :=
  if g.crossed then { g with more := g.more ++ [c] } else ⟨[], true, [c], []⟩

def addBlank (g : Gap) (c : Char) : Gap :=
  if g.crossed then g else { g with blanks := g.blanks ++ [c] }

def text (g : Gap) : List Char :=
  if !g.crossed then g.blanks
  else if g.first = ['\n'] then (if g.more.isEmpty then [' '] else g.more)
  else g.first ++ g.more

def read? (refuses : Placed → Bool) : Gap → Source → Option (Gap × Source)
  | g, [] => some (g, [])
  | g, p :: s =>
    if isSpaceOrTab p.char then
      if g.crossed && refuses p then none else read? refuses (g.addBlank p.char) s
    else if isBreak p.char then read? refuses (g.addBreak p.char) s
    else some (g, p :: s)

end Gap

end TopicHub.Yaml
