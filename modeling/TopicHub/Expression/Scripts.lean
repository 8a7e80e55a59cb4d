import TopicHub.Expression.Run
import TopicHub.Marker

/-!
Script calls in place of their results.
-/

namespace TopicHub.Scripts

open Text Marker

section

variable {m : Type → Type} [Monad m] (invoke : (name argument : String) → m String)

/-- At most `n` calls of a text are made, from left to right, and each is replaced by its result where
it stands. The search starts at a byte offset, and goes on behind each result. -/
def resolveFrom : Nat → (text : List Char) → (offset : Nat) → m (List Char)
  | 0, text, _ => pure text
  | n + 1, text, offset =>
    match findScriptFrom text offset with
    | none => pure text
    | some p => do
      let result ← invoke p.marker.name p.marker.argument
      resolveFrom n (p.before ++ result.toList ++ p.after) (p.start + utf8Size result.toList)

/-- The number of calls is limited by what the text holds before the first of them. -/
def resolveWith (text : List Char) : m (List Char) :=
  resolveFrom invoke (scriptMarkerCount text) text 0

end

def resolve (c : Collaborators) (text : List Char) : Run (List Char) :=
  resolveWith (fun name argument => c.runScript (name, argument)) text

end TopicHub.Scripts
