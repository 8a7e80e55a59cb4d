import TopicHub.Expression.Evaluate
import TopicHub.Text.Escape

/-!
Templates of published payloads. The steps have a fixed order: the payload in place of its word, values
in place of names, results in place of script calls, the value of a path, the value of a calculation,
and escapes. A path without a value and a calculation that fails leave the text as it is.
-/

namespace TopicHub.Template

open Text Json

def calculated (c : Collaborators) (text : List Char) : Run (List Char) :=
  if looksLikeCalculation text then do
    match ← c.runCalculation (String.ofList text) with
    | .ok value => pure value.display.toList
    | .error _ => pure text
  else pure text

def resolveText (c : Collaborators) (template : List Char) (payload : String) : Run (List Char) := do
  let text := Variables.resolve c.lookup (replaceInputAnyCase template payload.toList)
  let text ← Scripts.resolve c text
  let text ← calculated c
    (Expression.substitutePath (fun v => v.plainText.toList) text payload)
  pure (unescape text)

/-- No template gives no payload, and an empty one an empty payload. -/
def resolve (c : Collaborators) (template : Option String) (payload : String) :
    Run (Option String) :=
  match template with
  | none => pure none
  | some t =>
    if t.isEmpty then pure (some "")
    else do
      let text ← resolveText c t.toList payload
      pure (some (String.ofList text))

end TopicHub.Template
